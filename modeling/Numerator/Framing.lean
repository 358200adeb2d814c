import Numerator.Network
import Numerator.ThriftSteady

/-!
# Messages in pieces

The bytes of a connection arrive in whatever pieces the network cuts them into,
and a connection may be lost in the middle of a message. The processor reads a
message to its end before it calls the handler, so a part of a message has no
effect, and the pieces do not show in anything that the server does. A client
gets no answer out of a part of one.
-/

namespace Numerator

open Thrift DiskStorage

variable {σ : Type} {P : Protocol σ}

/-! ### The generated readers -/

theorem Query.steady_known (hP : P.Steady) : (Query.known P).Steady := by
  intro type id read hread p
  unfold Query.known at hread
  split at hread
  · cases hread
    exact hP.i32.bind fun _ => steady_pure _
  · split at hread
    · cases hread
      exact (hP.readList hP.string).bind fun _ => steady_pure _
    · split at hread
      · cases hread
        exact (hP.readList hP.i64).bind fun _ => steady_pure _
      · split at hread
        · cases hread
          exact (hP.readList hP.i32).bind fun _ => steady_pure _
        · cases hread

theorem Query.steady_read (hP : P.Steady) (depth : Nat) (q : Query) :
    Steady (Query.read P depth q) := by
  refine (hP.readTracked (steady_known hP) depth (q, false)).bind ?_
  rintro ⟨q, issetOp⟩
  dsimp only
  split
  · exact steady_pure q
  · exact steady_throw _

theorem ThriftException.steady_read (hP : P.Steady) (depth : Nat) (e : ThriftException) :
    Steady (ThriftException.read P depth e) := by
  have hknown : (ThriftException.known P).Steady := by
    intro type id read hread p
    unfold ThriftException.known at hread
    split at hread
    · cases hread
      exact hP.i32.bind fun _ => steady_pure _
    · split at hread
      · cases hread
        exact hP.string.bind fun _ => steady_pure _
      · cases hread
  refine (hP.readTracked hknown depth (e, false)).bind ?_
  rintro ⟨e, issetCode⟩
  dsimp only
  split
  · exact steady_pure e
  · exact steady_throw _

theorem steady_readEmptyStruct (hP : P.Steady) : Steady (readEmptyStruct P) := by
  refine hP.readTracked ?_ 0 ()
  intro type id read hread
  cases hread

theorem QueryArgs.steady_read (hP : P.Steady) : Steady (QueryArgs.read P) := by
  have hknown : (QueryArgs.known P).Steady := by
    intro type id read hread q
    unfold QueryArgs.known at hread
    split at hread
    · cases hread
      exact Query.steady_read hP 1 q
    · cases hread
  exact hP.readTracked hknown 0 {}

theorem QueryResult.steady_read (hP : P.Steady) (response : Query) :
    Steady (QueryResult.read P response) := by
  have hknown : (QueryResult.known P).Steady := by
    intro type id read hread result
    unfold QueryResult.known at hread
    split at hread
    · cases hread
      exact (Query.steady_read hP 1 result.success).bind fun _ => steady_pure _
    · split at hread
      · cases hread
        exact (ThriftException.steady_read hP 1 result.exc).bind fun _ => steady_pure _
      · cases hread
  exact hP.readTracked hknown 0 _

theorem steady_recvMessage (hP : P.Steady) (name : Bytes) {readResult : Reader σ Received}
    (hresult : Steady readResult) :
    Steady (NumeratorClient.recvMessage P name readResult) := by
  refine hP.messageBegin.bind ?_
  rintro ⟨fname, mtype, seqid⟩
  have hread : Steady (do
      let result ← readResult
      P.readMessageEnd
      pure result : Reader σ Received) :=
    hresult.bind fun result => hP.messageEnd.bind fun _ => steady_pure result
  have hname : Steady (if fname ≠ name then do
      P.skip 0 .struct
      P.readMessageEnd
      let result ← readResult
      P.readMessageEnd
      pure result
    else do
      let result ← readResult
      P.readMessageEnd
      pure result : Reader σ Received) := by
    split
    · exact (hP.skip 0 .struct).bind fun _ => hP.messageEnd.bind fun _ => hread
    · exact hread
  dsimp only
  split
  · exact hP.applicationException.bind fun x =>
      hP.messageEnd.bind fun _ => steady_pure _
  · split
    · exact (hP.skip 0 .struct).bind fun _ => hP.messageEnd.bind fun _ => hname
    · exact hname

theorem steady_recvVoid (hP : P.Steady) : Steady (NumeratorClient.recvVoid P) :=
  (steady_readEmptyStruct hP).bind fun _ => steady_pure _

theorem Message.steady_recv (hP : P.Steady) (response : Query) (m : Message σ) :
    Steady (m.recv P response) := by
  have hvoid : ∀ name, Steady (NumeratorClient.recvMessage P name (NumeratorClient.recvVoid P)) :=
    fun name => steady_recvMessage hP name (steady_recvVoid hP)
  unfold Message.recv
  split
  · rename_i call hcall
    cases call with
    | query request =>
      exact steady_recvMessage hP _
        ((QueryResult.steady_read hP response).bind fun result => steady_pure _)
    | ping | disableS2i | enableS2i => exact hvoid _
  · exact hvoid _

/-! ### Reading before acting -/

namespace NumeratorProcessor

variable (P) in
/-- The reader of the arguments, if there is a method of this name. -/
def readArgs (fname : Bytes) : Option (Reader σ ClientCall) :=
  if fname = messageBytes "ping" then some do
    readEmptyStruct P
    pure .ping
  else if fname = messageBytes "query" then some do
    let request ← QueryArgs.read P
    pure (.query request)
  else if fname = messageBytes "disable_s2i" then some do
    readEmptyStruct P
    pure .disableS2i
  else if fname = messageBytes "enable_s2i" then some do
    readEmptyStruct P
    pure .enableS2i
  else none

/-- What the processor has read of a message. -/
structure Request where
  fname : Bytes
  seqid : Int32
  call : Option ClientCall

variable (P) in
/-- All that the processor reads of a message. -/
def readRequest : Reader σ Request := do
  let (fname, seqid) ← P.readCall
  match readArgs P fname with
  | some read => do
    let call ← read
    P.readMessageEnd
    pure ⟨fname, seqid, some call⟩
  | none => do
    P.skip 0 .struct
    P.readMessageEnd
    pure ⟨fname, seqid, none⟩

variable (P) in
def answerTo (env : Surroundings) : ClientCall → Outcome → Option (MessageType × List σ)
  | .ping => answerVoid P "Numerator_ping_result" env.position
  | .query _ => answerQuery P
  | .disableS2i => answerVoid P "Numerator_disable_s2i_result" env.position
  | .enableS2i => answerVoid P "Numerator_enable_s2i_result" env.position

variable (P) in
/-- What it does then, in front of the rest of the stream. -/
def perform (env : Surroundings) (n : Node) (request : Request) (rest : List σ) :
    Option (Processed σ) :=
  match request.call with
  | none =>
      some (.answered n (message P request.fname .exception request.seqid
        (P.writeApplicationException (unknownMethod request.fname))) rest)
  | some call =>
      answerCall (P := P) env n request.fname request.seqid call (answerTo P env call) rest

/-- How a stream goes on from a message in front of it, or why there is none. -/
def proceed (env : Surroundings) (n : Node) :
    Except ReadError (Request × List σ) → Option (Processed σ)
  | .error _ => some .closed
  | .ok (request, rest) => perform P env n request rest

variable {env : Surroundings} {n : Node}

theorem processMethod_eq {name : String} {seqid : Int32} {read : Reader σ ClientCall}
    {answer : Outcome → Option (MessageType × List σ)} {stream : List σ}
    (hanswer : ∀ call rest, read stream = .ok (call, rest) → answer = answerTo P env call) :
    processMethod P env n name seqid read answer stream =
      proceed (P := P) env n ((do
        let call ← read
        P.readMessageEnd
        pure ⟨messageBytes name, seqid, some call⟩ : Reader σ Request) stream) := by
  unfold processMethod
  simp only [bind_eq]
  rcases hread : read stream with e | ⟨call, s⟩
  · rfl
  · dsimp only
    rcases P.readMessageEnd s with e | ⟨_, rest⟩
    · rfl
    · rw [hanswer call s hread]
      rfl

theorem readEmpty_call {call call' : ClientCall} {stream rest : List σ}
    (h : (do
      readEmptyStruct P
      pure call : Reader σ ClientCall) stream = .ok (call', rest)) : call' = call := by
  obtain ⟨_, mid, -, hpure⟩ := bind_eq_ok.mp h
  cases hpure
  rfl

/-- The processor reads a message to its end before it does anything. -/
theorem process_eq (stream : List σ) :
    process P env n stream = proceed (P := P) env n (readRequest P stream) := by
  unfold process readRequest
  rw [bind_eq]
  rcases hcall : P.readCall stream with e | ⟨⟨fname, seqid⟩, s⟩
  · rfl
  · dsimp only
    unfold dispatchCall readArgs
    split
    · rename_i hname
      rw [hname]
      refine processMethod_eq ?_
      intro call rest hread
      rw [readEmpty_call hread]
      rfl
    · split
      · rename_i hname
        rw [hname]
        refine processMethod_eq ?_
        intro call rest hread
        obtain ⟨request, mid, -, hpure⟩ := bind_eq_ok.mp hread
        cases hpure
        rfl
      · split
        · rename_i hname
          rw [hname]
          refine processMethod_eq ?_
          intro call rest hread
          rw [readEmpty_call hread]
          rfl
        · split
          · rename_i hname
            rw [hname]
            refine processMethod_eq ?_
            intro call rest hread
            rw [readEmpty_call hread]
            rfl
          · simp only [bind_eq]
            rcases P.skip 0 .struct s with e | ⟨_, s'⟩
            · rfl
            · dsimp only
              rcases P.readMessageEnd s' with e | ⟨_, rest⟩
              · rfl
              · rfl

theorem steady_readArgs (hP : P.Steady) {fname : Bytes} {read : Reader σ ClientCall}
    (h : readArgs P fname = some read) : Steady read := by
  have hempty : ∀ call : ClientCall, Steady (do
      readEmptyStruct P
      pure call : Reader σ ClientCall) :=
    fun call => (steady_readEmptyStruct hP).bind fun _ => steady_pure call
  unfold readArgs at h
  split at h
  · cases h
    exact hempty .ping
  · split at h
    · cases h
      exact (QueryArgs.steady_read hP).bind fun request => steady_pure _
    · split at h
      · cases h
        exact hempty .disableS2i
      · split at h
        · cases h
          exact hempty .enableS2i
        · cases h

theorem steady_readRequest (hP : P.Steady) : Steady (readRequest P) := by
  refine hP.call.bind ?_
  rintro ⟨fname, seqid⟩
  dsimp only
  split
  · rename_i read hread
    exact (steady_readArgs hP hread).bind fun call => hP.messageEnd.bind fun _ => steady_pure _
  · exact (hP.skip 0 .struct).bind fun _ => hP.messageEnd.bind fun _ => steady_pure _

/-- Without a symbol there is no message. -/
theorem readRequest_nil (hlawful : P.Lawful) (hsteady : P.Steady) :
    readRequest P [] = .error .endOfFile := by
  unfold readRequest
  rw [bind_eq, hsteady.readCall_nil hlawful]

theorem length_lt_of_readRequest (hlawful : P.Lawful) (hsteady : P.Steady) {s rest : List σ}
    {request : Request} (h : readRequest P s = .ok (request, rest)) :
    rest.length < s.length := by
  refine (steady_readRequest hsteady).length_lt ?_ h
  intro p hnil
  rw [readRequest_nil hlawful hsteady] at hnil
  cases hnil

/-- What is done for a message does not depend on what is behind it. -/
theorem perform_cases (env : Surroundings) (n : Node) (request : Request) :
    (∀ rest, perform P env n request rest = none) ∨
      (∃ n', ∀ rest, perform P env n request rest = some (.exited n')) ∨
      ∃ n' answer, ∀ rest, perform P env n request rest = some (.answered n' answer rest) := by
  obtain ⟨fname, seqid, _ | call⟩ := request
  · exact Or.inr (Or.inr ⟨n, _, fun rest => rfl⟩)
  · rcases hinvoke : n.invoke env call with _ | ⟨o, n'⟩
    · left
      intro rest
      simp only [perform, answerCall, hinvoke]
    · right
      rcases hanswer : answerTo P env call o with _ | ⟨mtype, result⟩
      · left
        refine ⟨n', fun rest => ?_⟩
        simp only [perform, answerCall, hinvoke, hanswer]
      · right
        refine ⟨n', message P fname mtype seqid result, fun rest => ?_⟩
        simp only [perform, answerCall, hinvoke, hanswer]

theorem length_lt_of_process (hlawful : P.Lawful) (hsteady : P.Steady)
    {s rest answer : List σ} {n' : Node}
    (h : process P env n s = some (.answered n' answer rest)) : rest.length < s.length := by
  rw [process_eq] at h
  rcases hread : readRequest P s with e | ⟨request, mid⟩
  · rw [hread] at h
    cases h
  · rw [hread] at h
    have hlt := length_lt_of_readRequest hlawful hsteady hread
    change perform P env n request mid = _ at h
    rcases perform_cases (P := P) env n request with hnone | ⟨_, hexited⟩ | ⟨_, _, hanswered⟩
    · rw [hnone] at h
      cases h
    · rw [hexited] at h
      cases h
    · rw [hanswered] at h
      cases h
      exact hlt

end NumeratorProcessor

/-! ### Messages that are cut off -/

/-- The processor reads a message as what it means. -/
theorem reads_readRequest (hP : P.Lawful) {m : Message σ} (hm : m.Fits P) :
    Reads (NumeratorProcessor.readRequest P) (m.symbols P)
      ⟨m.content.name, m.seqid, m.content.call⟩ := by
  unfold Message.symbols NumeratorProcessor.message
  refine (hP.call m.content.name m.seqid hm.length_name).bind ?_
  dsimp only
  obtain ⟨seqid, structName, content⟩ := m
  cases content with
  | ping fields =>
    exact (reads_emptyStruct hP structName hm).map.bind hP.messageEnd.map
  | query fields =>
    exact (reads_queryArgs hP structName hm).map.bind hP.messageEnd.map
  | disableS2i fields =>
    exact (reads_emptyStruct hP structName hm).map.bind hP.messageEnd.map
  | enableS2i fields =>
    exact (reads_emptyStruct hP structName hm).map.bind hP.messageEnd.map
  | other name fields =>
    obtain ⟨-, hping, hquery, hdisable, henable, hskip⟩ := hm
    have hnone : NumeratorProcessor.readArgs P name = none := by
      unfold NumeratorProcessor.readArgs
      rw [if_neg hping, if_neg hquery, if_neg hdisable, if_neg henable]
    dsimp only [MessageContent.name]
    rw [hnone]
    exact hskip.bind hP.messageEnd.map

/-- A part of a message has no effect on the server, and a part of an answer is no answer for
    the client. -/
theorem cut_off_harmless (P : Protocol σ) (hlawful : P.Lawful) (hsteady : P.Steady)
    (env : Surroundings) (n : Node) (hn : n.Fits) (m : Message σ) (hm : m.Fits P) :
    (∀ part, part <+: m.symbols P → part ≠ m.symbols P →
      NumeratorProcessor.process P env n part = some .closed) ∧
      ∀ n' answer rest rest',
        NumeratorProcessor.process P env n (m.symbols P ++ rest) =
          some (.answered n' answer rest') →
        ∀ response part, part <+: answer → part ≠ answer →
          m.recv P response part = .error .endOfFile := by
  constructor
  · intro part hpart hne
    have hread := reads_readRequest hlawful hm []
    rw [List.append_nil] at hread
    have hcut := (NumeratorProcessor.steady_readRequest hsteady).cut hread hpart hne
    rw [NumeratorProcessor.process_eq, hcut]
    rfl
  · intro n' answer rest rest' hprocess response part hpart hne
    have hgives := process_gives hlawful hm env hn rest
    rw [hprocess] at hgives
    generalize m.reply env n = reply at hgives
    cases hgives with
    | some hgives =>
      cases hgives with
      | answered _ r _ _ hreads =>
        have hread := hreads response []
        rw [List.append_nil] at hread
        exact (Message.steady_recv hsteady response m).cut hread hpart hne

/-- The answer, when nothing is left of the symbols. -/
def Processed.onlyAnswer : Processed σ → Option (List σ)
  | .answered _ answer [] => some answer
  | _ => none

theorem Processed.eq_of_onlyAnswer {processed : Processed σ} {answer : List σ}
    (h : processed.onlyAnswer = some answer) : ∃ n, processed = .answered n answer [] := by
  unfold onlyAnswer at h
  split at h
  · cases h
    exact ⟨_, rfl⟩
  · cases h

/-- A request for one string, cut off in the middle, and its answer, cut off as well. -/
theorem cut_off_harmless_query :
    let m : Message UInt8 := .ofCall (.query { op := .STR2ID, strings := [[97]] })
    let n : Node := .running ⟨∅, ∅, 1, false⟩
    NumeratorProcessor.process Binary.protocol { it := newIterator ∅ } n
        ((m.symbols Binary.protocol).take 30) = some .closed ∧
      ∃ n' answer, NumeratorProcessor.process Binary.protocol { it := newIterator ∅ } n
          (m.symbols Binary.protocol ++ []) = some (.answered n' answer []) ∧
        m.recv Binary.protocol {} (answer.take 30) = .error .endOfFile := by
  intro m n
  have hm : m.Fits Binary.protocol := Message.fits_ofCall (show Query.Fits _ by decide)
  obtain ⟨hcut, hanswer⟩ := cut_off_harmless Binary.protocol Binary.lawful Binary.steady
    { it := newIterator ∅ } n fits_empty m hm
  have hshort : ((m.symbols Binary.protocol).take 30) ≠ m.symbols Binary.protocol := by
    decide +kernel
  refine ⟨hcut _ (List.take_prefix _ _) hshort, ?_⟩
  have hlong : ((NumeratorProcessor.process Binary.protocol { it := newIterator ∅ } n
      (m.symbols Binary.protocol ++ [])).bind Processed.onlyAnswer).any
        (fun answer => answer.take 30 ≠ answer) = true := by
    decide +kernel
  obtain ⟨answer, honly, hne⟩ := (Option.any_eq_true _ _).mp hlong
  obtain ⟨processed, hprocess, hanswered⟩ := Option.bind_eq_some_iff.mp honly
  obtain ⟨n', rfl⟩ := Processed.eq_of_onlyAnswer hanswered
  exact ⟨n', answer, hprocess, hanswer n' answer [] [] hprocess {} _ (List.take_prefix _ _)
    (of_decide_eq_true hne)⟩

/-! ### A connection in pieces -/

/-- The server's side of a connection: the symbols that it has not read yet and all that it has
    answered, after so many messages; or how the connection has ended. -/
inductive ServerSide (σ : Type) where
  | serving (n : Node) (arrived answers : List σ) (served : Nat)
  | closed (n : Node) (answers : List σ)
  | exited (n : Node) (answers : List σ)
  | undefined
deriving DecidableEq

namespace ServerSide

open NumeratorProcessor

variable (P) in
/-- One message after another is processed. When the symbols end within a message, the reader
    waits for more. -/
def serveLoop (env : Nat → Surroundings) : Nat → Node → List σ → List σ → Nat → ServerSide σ
  | 0, n, arrived, answers, served => .serving n arrived answers served
  | fuel + 1, n, arrived, answers, served =>
    match process P (env served) n arrived with
    | none => .undefined
    | some (.answered n' answer rest) => serveLoop env fuel n' rest (answers ++ answer) (served + 1)
    | some (.exited n') => .exited n' answers
    | some .closed =>
      match readRequest P arrived with
      | .error .endOfFile => .serving n arrived answers served
      | _ => .closed n answers

variable (P) in
/-- Every message takes a symbol, so there are no more messages than symbols. -/
def serve (env : Nat → Surroundings) (n : Node) (arrived answers : List σ) (served : Nat) :
    ServerSide σ :=
  serveLoop P env (arrived.length + 1) n arrived answers served

variable (P) in
def arrive (env : Nat → Surroundings) (x : ServerSide σ) (piece : List σ) : ServerSide σ :=
  match x with
  | .serving n arrived answers served => serve P env n (arrived ++ piece) answers served
  | x => x

/-- How many messages have been served, while the connection goes on. -/
def served? : ServerSide σ → Option Nat
  | .serving _ _ _ served => some served
  | _ => none

theorem eq_of_served? {x : ServerSide σ} {served : Nat} (h : x.served? = some served) :
    ∃ n arrived answers, x = .serving n arrived answers served := by
  cases x with
  | serving n arrived answers served' =>
    cases h
    exact ⟨n, arrived, answers, rfl⟩
  | closed _ _ | exited _ _ | undefined => cases h

section Pieces

variable {env : Nat → Surroundings} {n : Node} {arrived answers : List σ} {served : Nat}

theorem serveLoop_eq (hlawful : P.Lawful) (hsteady : P.Steady) {fuel fuel' : Nat}
    (h : arrived.length < fuel) (h' : arrived.length < fuel') :
    serveLoop P env fuel n arrived answers served =
      serveLoop P env fuel' n arrived answers served := by
  induction fuel generalizing fuel' n arrived answers served with
  | zero => omega
  | succ fuel ih =>
    cases fuel' with
    | zero => omega
    | succ fuel' =>
      unfold serveLoop
      split
      · rfl
      · rename_i n' answer rest hprocess
        have hlt := length_lt_of_process hlawful hsteady hprocess
        exact ih (by omega) (by omega)
      · rfl
      · rfl

theorem serve_error {e : ReadError} (h : readRequest P arrived = .error e) :
    serve P env n arrived answers served =
      if e = .endOfFile then .serving n arrived answers served else .closed n answers := by
  unfold serve serveLoop
  rw [process_eq, h]
  cases e <;> rfl

theorem serve_ok (hlawful : P.Lawful) (hsteady : P.Steady) {request : Request} {rest : List σ}
    (h : readRequest P arrived = .ok (request, rest)) :
    serve P env n arrived answers served =
      match perform P (env served) n request rest with
      | none => .undefined
      | some (.answered n' answer rest) => serve P env n' rest (answers ++ answer) (served + 1)
      | some (.exited n') => .exited n' answers
      | some .closed => .closed n answers := by
  have hlt := length_lt_of_readRequest hlawful hsteady h
  conv => lhs; unfold serve serveLoop
  rw [process_eq, h]
  dsimp only [proceed]
  rcases perform_cases (P := P) (env served) n request with
    hnone | ⟨n', hexited⟩ | ⟨n', answer, hanswered⟩
  · simp only [hnone]
  · simp only [hexited]
  · simp only [hanswered]
    exact serveLoop_eq hlawful hsteady hlt (Nat.lt_succ_self _)

/-- What arrives later is served as if it had been there from the beginning. -/
theorem arrive_serve (hlawful : P.Lawful) (hsteady : P.Steady) (piece : List σ) :
    arrive P env (serve P env n arrived answers served) piece =
      serve P env n (arrived ++ piece) answers served := by
  induction hlength : arrived.length using Nat.strong_induction_on
    generalizing n arrived answers served with
  | _ length ih =>
    rcases hread : readRequest P arrived with e | ⟨request, rest⟩
    · rw [serve_error hread]
      split
      · rfl
      · rename_i he
        rw [serve_error ((steady_readRequest hsteady).bad hread he piece), if_neg he]
        rfl
    · have hlt := length_lt_of_readRequest hlawful hsteady hread
      rw [serve_ok hlawful hsteady hread,
        serve_ok hlawful hsteady ((steady_readRequest hsteady).more hread piece)]
      rcases perform_cases (P := P) (env served) n request with
        hnone | ⟨n', hexited⟩ | ⟨n', answer, hanswered⟩
      · simp only [hnone]
        rfl
      · simp only [hexited]
        rfl
      · simp only [hanswered]
        exact ih rest.length (hlength ▸ hlt) rfl

theorem foldl_arrive_serve (hlawful : P.Lawful) (hsteady : P.Steady) (pieces : List (List σ)) :
    pieces.foldl (arrive P env) (serve P env n arrived answers served) =
      serve P env n (arrived ++ pieces.flatten) answers served := by
  induction pieces generalizing arrived with
  | nil => rw [List.foldl_nil, List.flatten_nil, List.append_nil]
  | cons piece pieces ih =>
    rw [List.foldl_cons, arrive_serve hlawful hsteady, ih, List.flatten_cons, List.append_assoc]

end Pieces

end ServerSide

/-- However the network cuts the bytes of a connection into pieces, the server does with them
    what it does with all of them at once. -/
theorem pieces_unobservable (P : Protocol σ) (hlawful : P.Lawful) (hsteady : P.Steady)
    (env : Nat → Surroundings) (n : Node) (pieces : List (List σ)) :
    pieces.foldl (ServerSide.arrive P env) (.serving n [] [] 0) =
      ServerSide.arrive P env (.serving n [] [] 0) pieces.flatten := by
  have hstart : ServerSide.serve P env n [] [] 0 = .serving n [] [] 0 := by
    rw [ServerSide.serve_error (NumeratorProcessor.readRequest_nil hlawful hsteady), if_pos rfl]
  rw [← hstart, ServerSide.foldl_arrive_serve hlawful hsteady,
    ServerSide.arrive_serve hlawful hsteady]

/-- A lookup, a request for a string and the beginning of another one come in four pieces that
    end inside the messages. -/
def brokenUp : List Bytes :=
  let lookup := NumeratorClient.send Binary.protocol (.query { op := .ID2STR, ids := [1] })
  let request := NumeratorClient.send Binary.protocol (.query { op := .STR2ID, strings := [[97]] })
  [lookup.take 30, lookup.drop 30 ++ request.take 3, request.drop 3 ++ request.take 10, []]

theorem pieces_unobservable_brokenUp :
    let env : Nat → Surroundings := fun _ => { it := newIterator ∅ }
    let start : ServerSide UInt8 := .serving (.running ⟨∅, ∅, 1, false⟩) [] [] 0
    ∃ n arrived answers, brokenUp.foldl (ServerSide.arrive Binary.protocol env) start =
        .serving n arrived answers 2 ∧
      ServerSide.arrive Binary.protocol env start brokenUp.flatten =
        .serving n arrived answers 2 := by
  intro env start
  have hpieces := pieces_unobservable Binary.protocol Binary.lawful Binary.steady env
    (.running ⟨∅, ∅, 1, false⟩) brokenUp
  have hserved :
      (ServerSide.arrive Binary.protocol env start brokenUp.flatten).served? = some 2 := by
    decide +kernel
  obtain ⟨n, arrived, answers, hserving⟩ := ServerSide.eq_of_served? hserved
  exact ⟨n, arrived, answers, hpieces.trans hserving, hserving⟩

end Numerator
