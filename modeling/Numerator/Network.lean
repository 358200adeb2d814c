import Numerator.Crashes
import Numerator.Messages
import Numerator.Simulation

/-!
# The network

Any number of clients and the process that serves them. In `Wire` a connection
is a stream of symbols in both directions, which the generated code reads and
writes; in `Mailboxes` it is a queue of messages and a queue of results. Clients
may send further messages before they read answers, the process may end and be
started again, and messages are served in any order of the connections. The two
networks go in lockstep, so nothing depends on the symbols.
-/

namespace Numerator

open Thrift FiniteMap DiskStorage

variable {C σ : Type} [DecidableEq C]

/-! ### Events -/

/-- A client connects, calls a method of the generated client, sends any other message, or reads
    an answer; the process serves the next message of a connection, starts or stops. -/
inductive NetworkAction (C σ : Type) where
  | connect (c : C)
  | call (c : C) (call : ClientCall)
  | send (c : C) (m : Message σ)
  | serve (c : C) (env : Surroundings)
  | receive (c : C) (response : Query)
  | start (it : Iterator) (judy : Nat → JudyReply)
  | stop

inductive NetworkOutput (σ : Type) where
  | connected
  | sent
  | refused
  | idle
  | served
  | closed
  | received (m : Message σ) (r : Received)
  | broken (e : ReadError)
  | life (o : Outcome)

def Node.isRunning : Node → Bool
  | .stopped _ => false
  | .running _ => true

/-! ### Streams of symbols -/

/-- The symbols on their way to the server and back, and the messages whose answers the client
    has not read, the oldest first. -/
structure Connection (σ : Type) where
  calls : List σ := []
  replies : List σ := []
  waiting : List (Message σ) := []
  closed : Bool := true

namespace Connection

def push (x : Connection σ) (m : Message σ) (symbols : List σ) : Connection σ :=
  { x with calls := x.calls ++ symbols, waiting := x.waiting ++ [m] }

def reply (x : Connection σ) (answer rest : List σ) : Connection σ :=
  { x with calls := rest, replies := x.replies ++ answer }

def read (x : Connection σ) (rest : List σ) (waiting : List (Message σ)) : Connection σ :=
  { x with replies := rest, waiting := waiting }

/-- The client can still read what has been answered. -/
def hangUp (x : Connection σ) : Connection σ := { x with calls := [], closed := true }

end Connection

structure Wire (C σ : Type) where
  node : Node
  connections : C → Connection σ

namespace Wire

def start (n : Node) : Wire C σ := ⟨n, fun _ => {}⟩

def set (w : Wire C σ) (c : C) (x : Connection σ) : Wire C σ :=
  { w with connections := Function.update w.connections c x }

def hangUp (w : Wire C σ) (n : Node) : Wire C σ := ⟨n, fun c => (w.connections c).hangUp⟩

def send (w : Wire C σ) (c : C) (m : Message σ) (symbols : List σ) :
    NetworkOutput σ × Wire C σ :=
  if (w.connections c).closed then (.refused, w)
  else (.sent, w.set c ((w.connections c).push m symbols))

variable (P : Protocol σ)

def serve (w : Wire C σ) (c : C) (env : Surroundings) : Option (NetworkOutput σ × Wire C σ) :=
  if (w.connections c).calls.isEmpty then some (.idle, w)
  else
    match NumeratorProcessor.process P env w.node (w.connections c).calls with
    | none => none
    | some (.answered n answer rest) =>
        some (.served, { w with node := n }.set c ((w.connections c).reply answer rest))
    | some (.exited n) => some (.life .exited, w.hangUp n)
    | some .closed => some (.closed, w.set c (w.connections c).hangUp)

def receive (w : Wire C σ) (c : C) (response : Query) : NetworkOutput σ × Wire C σ :=
  match (w.connections c).waiting with
  | [] => (.idle, w)
  | m :: waiting =>
    if (w.connections c).replies.isEmpty then (.idle, w)
    else
      match m.recv P response (w.connections c).replies with
      | .error e => (.broken e, w.set c (w.connections c).hangUp)
      | .ok (r, rest) => (.received m r, w.set c ((w.connections c).read rest waiting))

def step (w : Wire C σ) : NetworkAction C σ → Option (NetworkOutput σ × Wire C σ)
  | .connect c => some (.connected, w.set c { closed := !w.node.isRunning })
  | .call c call => some (w.send c (.ofCall call) (NumeratorClient.send P call))
  | .send c m => some (w.send c m (m.symbols P))
  | .serve c env => w.serve P c env
  | .receive c response => some (w.receive P c response)
  | .start it judy =>
      (w.node.live (.start it judy)).map fun p => (.life p.1, { w with node := p.2 })
  | .stop => (w.node.live .stop).map fun p => (.life p.1, w.hangUp p.2)

end Wire

/-! ### Queues of messages and results -/

structure Mailbox (σ : Type) where
  asked : List (Message σ) := []
  answered : List (Message σ × Received) := []
  closed : Bool := true

namespace Mailbox

def push (b : Mailbox σ) (m : Message σ) : Mailbox σ := { b with asked := b.asked ++ [m] }

def reply (b : Mailbox σ) (m : Message σ) (r : Received) (asked : List (Message σ)) : Mailbox σ :=
  { b with asked := asked, answered := b.answered ++ [(m, r)] }

def read (b : Mailbox σ) (answered : List (Message σ × Received)) : Mailbox σ :=
  { b with answered := answered }

def hangUp (b : Mailbox σ) : Mailbox σ := { b with asked := [], closed := true }

end Mailbox

structure Mailboxes (C σ : Type) where
  node : Node
  boxes : C → Mailbox σ

/-- The result that a message leads to, unless the process ends. -/
def Message.reply (env : Surroundings) (n : Node) (m : Message σ) :
    Option (Option Received × Node) :=
  match m.content.call with
  | none => some (some (.application (NumeratorProcessor.unknownMethod m.content.name)), n)
  | some call => (n.invoke env call).map fun p => (m.content.received env p.1, p.2)

namespace Mailboxes

def start (n : Node) : Mailboxes C σ := ⟨n, fun _ => {}⟩

def set (d : Mailboxes C σ) (c : C) (b : Mailbox σ) : Mailboxes C σ :=
  { d with boxes := Function.update d.boxes c b }

def hangUp (d : Mailboxes C σ) (n : Node) : Mailboxes C σ := ⟨n, fun c => (d.boxes c).hangUp⟩

def send (d : Mailboxes C σ) (c : C) (m : Message σ) : NetworkOutput σ × Mailboxes C σ :=
  if (d.boxes c).closed then (.refused, d) else (.sent, d.set c ((d.boxes c).push m))

def serve (d : Mailboxes C σ) (c : C) (env : Surroundings) :
    Option (NetworkOutput σ × Mailboxes C σ) :=
  match (d.boxes c).asked with
  | [] => some (.idle, d)
  | m :: asked =>
    match m.reply env d.node with
    | none => none
    | some (some r, n) =>
        some (.served, { d with node := n }.set c ((d.boxes c).reply m r asked))
    | some (none, n) => some (.life .exited, d.hangUp n)

def receive (d : Mailboxes C σ) (c : C) : NetworkOutput σ × Mailboxes C σ :=
  match (d.boxes c).answered with
  | [] => (.idle, d)
  | (m, r) :: answered => (.received m r, d.set c ((d.boxes c).read answered))

def step (d : Mailboxes C σ) : NetworkAction C σ → Option (NetworkOutput σ × Mailboxes C σ)
  | .connect c => some (.connected, d.set c { closed := !d.node.isRunning })
  | .call c call => some (d.send c (.ofCall call))
  | .send c m => some (d.send c m)
  | .serve c env => d.serve c env
  | .receive c _ => some (d.receive c)
  | .start it judy =>
      (d.node.live (.start it judy)).map fun p => (.life p.1, { d with node := p.2 })
  | .stop => (d.node.live .stop).map fun p => (.life p.1, d.hangUp p.2)

end Mailboxes

/-! ### What fits on the wire -/

/-- The stored strings are short enough to be sent. -/
def Node.Fits (n : Node) : Prop :=
  ∀ (id : NumID) (str : Bytes), n.store[id]? = some str → str.length < 2 ^ 31

def ClientCall.Fits : ClientCall → Prop
  | .query request => request.Fits
  | _ => True

def NetworkAction.Fits (P : Protocol σ) : NetworkAction C σ → Prop
  | .call _ asked => asked.Fits
  | .send _ m => m.Fits P
  | _ => True

section Fits

variable {P : Protocol σ} {n n' : Node} {s : Server} {request : Query} {o : Outcome}

theorem Message.fits_ofCall {call : ClientCall} (h : call.Fits) : (ofCall call).Fits P := by
  cases call with
  | query request =>
    intro f hf
    obtain rfl := List.mem_singleton.mp hf
    exact ⟨Query.fits_fields h 1, rfl⟩
  | _ =>
    intro f hf
    cases hf

/-- What the processor reads of a message is what a client may call. -/
theorem Message.Fits.call {m : Message σ} (h : m.Fits P) {call : ClientCall}
    (hcall : m.content.call = some call) : call.Fits := by
  obtain ⟨seqid, structName, content⟩ := m
  cases content with
  | query fields =>
    cases hcall
    exact fits_requestOf h
  | other name fields => cases hcall
  | _ =>
    cases hcall
    trivial

theorem outcomeFits_of_response {response : Query} (h : response.Fits) :
    (Outcome.response response).Fits where
  response := by
    intro response' heq
    cases heq
    exact h
  refused := by
    intro e heq
    cases heq

theorem outcomeFits_of_ne (hresponse : ∀ response, o ≠ .response response)
    (hrefused : ∀ e, o ≠ .refused e) : o.Fits where
  response := fun response heq => absurd heq (hresponse response)
  refused := fun e heq => absurd heq (hrefused e)

theorem Looked.fits {db : Store} {response : Query} (h : Looked db request response)
    (hdb : (Node.stopped db).Fits) (hrequest : request.Fits)
    (hop : response.op = request.op) (hids : response.ids = []) : response.Fits where
  op := by
    rw [hop]
    exact hrequest.op
  strings := by
    rw [h.strings, List.length_map]
    refine ⟨hrequest.ids, ?_⟩
    intro str hstr
    obtain ⟨id, -, rfl⟩ := List.mem_map.mp hstr
    rcases hid : db[id]? with _ | value
    · norm_num
    · exact hdb id value hid
  ids := by
    rw [hids]
    norm_num
  failures := by
    have hlength := hrequest.ids
    rw [h.failures]
    refine ⟨(length_missing_le db 0 request.ids).trans_lt hlength, ?_⟩
    intro i hi
    obtain ⟨p, k, rfl, hp, -⟩ := mem_missing.mp hi
    obtain ⟨hlt, -⟩ := List.getElem?_eq_some_iff.mp hp
    change -2 ^ 31 ≤ 0 + (p : Int) ∧ 0 + (p : Int) < 2 ^ 31
    omega

/-- The storages throw exceptions of `exc.hpp` only. -/
theorem find_ne_refused (reply : JudyReply) (m : MemoryStorage) (str : Bytes) (c : NumID)
    (e : NumeratorException) :
    MemoryStorage.find reply m str c ≠ .error (.numeratorException e) := by
  intro h
  unfold MemoryStorage.find at h
  rcases hget : reply.get with _ | errno
  · rcases hm : m[cstr str]? with _ | id
    · rcases hins : reply.ins with _ | errno
      · rcases hincrement : NumID.increment c with f | next
        · simp only [hget, hm, hins, hincrement] at h
          obtain ⟨-, rfl⟩ := NumID.increment_eq_error.mp hincrement
          cases h
        · simp [hget, hm, hins, hincrement] at h
      · simp [hget, hm, hins] at h
    · simp [hget, hm] at h
  · simp [hget] at h

theorem rounds_ne_refused (judy : Nat → JudyReply) (i : Nat) (l : Server.Loop)
    (strings : List Bytes) (e : NumeratorException) :
    Server.rounds judy i l strings ≠ .error (.numeratorException e) := by
  induction strings generalizing i l with
  | nil =>
    intro h
    cases h
  | cons str strings ih =>
    intro h
    rcases hround : Server.round (judy i) l str with f | l'
    · simp only [Server.rounds, hround] at h
      cases h
      unfold Server.round at hround
      rcases hfind : MemoryStorage.find (judy i) l.memoryStorage str l.cnt with f | found
      · simp only [hfind] at hround
        cases hround
        exact find_ne_refused _ _ _ _ _ hfind
      · simp [hfind] at hround
    · simp only [Server.rounds, hround] at h
      exact ih (i + 1) l' h

theorem lookup_ne_refused (get : Nat → Option String) (db : Store) (keys : List NumID)
    (e : NumeratorException) : lookup get db keys [] [] ≠ .error (.numeratorException e) := by
  unfold lookup
  generalize 0 = n
  generalize (0 : FailureIdx) = i
  generalize ([] : List Bytes) = values
  generalize ([] : List FailureIdx) = failures
  induction keys generalizing n i values failures with
  | nil =>
    intro h
    cases h
  | cons k keys ih =>
    intro h
    rw [lookupLoop] at h
    rcases hget : get n with _ | status
    · rcases hk : db[k]? with _ | value
      all_goals
        simp only [hget, hk] at h
        exact ih _ _ _ _ h
    · simp [hget] at h

theorem fits_putBatch {db : Store} {kvPairs : List KVPair} (hdb : (Node.stopped db).Fits)
    (hkvPairs : ∀ p ∈ kvPairs, p.value.length < 2 ^ 31) :
    (Node.stopped (putBatch db kvPairs)).Fits := by
  intro id str hstr
  rcases getElem?_putAll_cases hstr with ⟨p, hp, -, rfl⟩ | hold
  · exact hkvPairs p hp
  · exact hdb id str hold

theorem fits_query {replies : Replies} (h : Node.query replies s request = some (o, n'))
    (hs : (Node.running s).Fits) (hrequest : request.Fits) : o.Fits ∧ n'.Fits := by
  unfold Node.query Server.queryImpl at h
  rcases hop : request.op with _ | _ | code
  · by_cases hdisabled : s.disableS2iQueries = true
    · simp only [hop, hdisabled, if_true] at h
      cases h
      exact ⟨⟨by rintro response ⟨⟩, by rintro e ⟨⟩; rfl⟩, hs⟩
    · rw [Bool.not_eq_true] at hdisabled
      rcases hrounds : Server.rounds replies.judy 0 ⟨s.memoryStorage, s.cnt, [], []⟩
        request.strings with f | l
      · simp only [hop, hdisabled, hrounds, Bool.false_eq_true, if_false] at h
        rcases f with e | e | u
        · cases h
          exact ⟨outcomeFits_of_ne (by rintro _ ⟨⟩) (by rintro _ ⟨⟩), hs⟩
        · exact absurd hrounds (rounds_ne_refused _ _ _ _ e)
        · cases h
      · have hl := (Server.numbered_nil s.memoryStorage s.cnt).rounds hrounds
        have hbatch : (Node.stopped (putBatch s.diskStorage l.kvPairs)).Fits :=
          fits_putBatch hs fun p hp => hrequest.strings.2 p.value (hl.requested p hp)
        rcases hwrite : replies.write with _ | ⟨status, applied⟩
        · simp only [hop, hdisabled, hrounds, hwrite, write, Bool.false_eq_true, if_false] at h
          cases h
          refine ⟨outcomeFits_of_response ?_, hbatch⟩
          have hlength := hl.length_ids
          exact { Query.fits_default with
            op := rfl
            ids := by
              rw [hlength]
              exact hrequest.strings.1 }
        · simp only [hop, hdisabled, hrounds, hwrite, write, Bool.false_eq_true, if_false] at h
          cases h
          refine ⟨outcomeFits_of_ne (by rintro _ ⟨⟩) (by rintro _ ⟨⟩), ?_⟩
          cases applied
          · exact hs
          · exact hbatch
  · rcases hlookup : lookup replies.get s.diskStorage request.ids [] [] with f | ⟨values, failures⟩
    · simp only [hop, hlookup] at h
      rcases f with e | e | u
      · cases h
        exact ⟨outcomeFits_of_ne (by rintro _ ⟨⟩) (by rintro _ ⟨⟩), hs⟩
      · exact absurd hlookup (lookup_ne_refused _ _ _ e)
      · cases h
    · simp only [hop, hlookup] at h
      cases h
      have hlooked : Looked s.diskStorage request ⟨.ID2STR, values, [], failures⟩ :=
        looked_of_lookup hlookup rfl rfl
      exact ⟨outcomeFits_of_response (hlooked.fits hs hrequest hop.symm rfl), hs⟩
  · simp only [hop] at h
    cases h
    have hcode := hrequest.op
    rw [hop] at hcode
    exact ⟨outcomeFits_of_response { Query.fits_default with op := hcode }, hs⟩

theorem fits_enable {it : Iterator} {judy : Nat → JudyReply}
    (h : Node.enable it judy s = some (o, n')) (hs : (Node.running s).Fits) :
    o.Fits ∧ n'.Fits := by
  unfold Node.enable Server.enableS2i at h
  by_cases hdisabled : s.disableS2iQueries = true
  · rcases hload : loadInMemory it judy s.memoryStorage with ⟨storage, f | p⟩
    · obtain ⟨e, rfl⟩ : ∃ e, f = .exc e := by
        unfold loadInMemory at hload
        split at hload
        · cases hload
        · cases hload
          exact loadLoop_error ‹_›
      simp only [if_pos hdisabled, hload] at h
      cases h
      exact ⟨outcomeFits_of_ne (by rintro _ ⟨⟩) (by rintro _ ⟨⟩), hs⟩
    · simp only [if_pos hdisabled, hload] at h
      cases h
      exact ⟨outcomeFits_of_ne (by rintro _ ⟨⟩) (by rintro _ ⟨⟩), hs⟩
  · simp only [if_neg hdisabled] at h
    cases h
    exact ⟨outcomeFits_of_ne (by rintro _ ⟨⟩) (by rintro _ ⟨⟩), hs⟩

theorem fits_invoke {env : Surroundings} {call : ClientCall}
    (h : n.invoke env call = some (o, n')) (hn : n.Fits) (hcall : call.Fits) :
    o.Fits ∧ n'.Fits := by
  cases n with
  | stopped db =>
    have hstopped : (o = .done ∨ o = .ignored) ∧ n' = .stopped db := by
      cases call <;> cases h
      · exact ⟨Or.inl rfl, rfl⟩
      all_goals exact ⟨Or.inr rfl, rfl⟩
    obtain ⟨ho, rfl⟩ := hstopped
    refine ⟨outcomeFits_of_ne ?_ ?_, hn⟩
    all_goals
      intro _ heq
      rw [heq] at ho
      rcases ho with ho | ho <;> cases ho
  | running s =>
    cases call with
    | ping =>
      cases h
      exact ⟨outcomeFits_of_ne (by rintro _ ⟨⟩) (by rintro _ ⟨⟩), hn⟩
    | query request => exact fits_query h hn hcall
    | disableS2i =>
      cases h
      refine ⟨outcomeFits_of_ne (by rintro _ ⟨⟩) (by rintro _ ⟨⟩), ?_⟩
      unfold Server.disableS2i
      split <;> exact hn
    | enableS2i => exact fits_enable h hn

theorem fits_live {e : ServedEvent} (he : ∀ c, e ≠ .call c) (h : n.live e = some (o, n'))
    (hn : n.Fits) : n'.Fits := by
  have hstore : n'.store = n.store := by
    cases n with
    | stopped db =>
      cases e with
      | start it judy =>
        simp only [Node.live, Node.start, Bool.false_eq_true, if_false] at h
        split at h
        · cases h
        · cases h
          rfl
        · split at h <;> cases h
          rfl
      | call c => exact absurd rfl (he c)
      | stop =>
        cases h
        rfl
    | running s =>
      cases e with
      | call c => exact absurd rfl (he c)
      | start it judy | stop =>
        cases h
        rfl
  intro id str hstr
  rw [hstore] at hstr
  exact hn id str hstr

end Fits

/-! ### Lockstep -/

/-- The processor ends the process when there is no result, and else writes an answer that the
    client reads as the result. -/
inductive Processed.Gives (P : Protocol σ) (m : Message σ) (rest : List σ) :
    Option Received × Node → Processed σ → Prop where
  | answered (n : Node) (r : Received) (answer : List σ) (hne : answer ≠ [])
      (hreads : ∀ prior, Reads (m.recv P prior) answer r) :
      Gives P m rest (some r, n) (.answered n answer rest)
  | exited (n : Node) : Gives P m rest (none, n) (.exited n)

section Reply

variable {P : Protocol σ} {m : Message σ} {env : Surroundings} {n : Node}

theorem Message.fits_reply (hm : m.Fits P) (hn : n.Fits) {r : Option Received} {n' : Node}
    (h : m.reply env n = some (r, n')) : n'.Fits := by
  unfold reply at h
  rcases hcall : m.content.call with _ | call
  · simp only [hcall] at h
    cases h
    exact hn
  · simp only [hcall] at h
    obtain ⟨⟨o, n''⟩, hinvoke, heq⟩ := Option.map_eq_some_iff.mp h
    cases heq
    exact (fits_invoke hinvoke hn (hm.call hcall)).2

theorem message_ne_nil (hP : P.Lawful) (hm : m.Fits P) (type : MessageType) (content : List σ) :
    NumeratorProcessor.message P m.content.name type m.seqid content ≠ [] := by
  have hne := hP.messageBegin_ne_nil hm.length_name type m.seqid
  simp [NumeratorProcessor.message, hne]

/-- The processor does with a message what it means. -/
theorem process_gives (hP : P.Lawful) (hm : m.Fits P) (env : Surroundings) (hn : n.Fits)
    (rest : List σ) :
    Option.Rel (Processed.Gives P m rest) (m.reply env n)
      (NumeratorProcessor.process P env n (m.symbols P ++ rest)) := by
  rw [NumeratorProcessor.process_message hP hm]
  unfold Message.reply NumeratorProcessor.answerMessage
  rcases hcall : m.content.call with _ | call
  · exact .some (.answered n _ _ (message_ne_nil hP hm _ _) (reads_unknownMethod hP hm hcall))
  · simp only [NumeratorProcessor.answerCall]
    rcases hinvoke : n.invoke env call with _ | ⟨o, n'⟩
    · exact .none
    · obtain ⟨ho, -⟩ := fits_invoke hinvoke hn (hm.call hcall)
      have hreads := reads_answer hP hm hcall env ho
      simp only [Option.map_some]
      rcases hanswer : m.content.answer P env o with _ | ⟨mtype, result⟩
      · rcases hreceived : m.content.received env o with _ | r
        · exact .some (.exited n')
        · simpa [hanswer, hreceived] using hreads {}
      · rcases hreceived : m.content.received env o with _ | r
        · simpa [hanswer, hreceived] using hreads {}
        · refine .some (.answered n' r _ (message_ne_nil hP hm _ _) ?_)
          intro prior
          simpa [hanswer, hreceived] using hreads prior

end Reply

/-- The streams of a connection carry what its mailbox has, and the client waits for that. -/
structure Connection.Carries (P : Protocol σ) (x : Connection σ) (b : Mailbox σ) : Prop where
  closed : b.closed = x.closed
  calls : x.calls = b.asked.flatMap (Message.symbols P)
  asked : ∀ m ∈ b.asked, m.Fits P
  replies : ∃ answers : List (List σ), x.replies = answers.flatten ∧
    List.Forall₂ (fun p answer => answer ≠ [] ∧ ∀ prior, Reads (p.1.recv P prior) answer p.2)
      b.answered answers
  waiting : b.answered.map Prod.fst ++ b.asked <+: x.waiting
  live : x.closed = false → x.waiting = b.answered.map Prod.fst ++ b.asked

structure Wire.Carries (P : Protocol σ) (d : Mailboxes C σ) (w : Wire C σ) : Prop where
  node : d.node = w.node
  fits : w.node.Fits
  connections : ∀ c, (w.connections c).Carries P (d.boxes c)

namespace Connection.Carries

variable {P : Protocol σ} {x : Connection σ} {b : Mailbox σ}

theorem fresh (closed : Bool) :
    ({ closed := closed } : Connection σ).Carries P { closed := closed } where
  closed := rfl
  calls := rfl
  asked := by simp
  replies := ⟨[], rfl, .nil⟩
  waiting := List.prefix_rfl
  live := fun _ => rfl

theorem hangUp (h : x.Carries P b) : x.hangUp.Carries P b.hangUp where
  closed := rfl
  calls := rfl
  asked := by simp [Mailbox.hangUp]
  replies := h.replies
  waiting := by
    change b.answered.map Prod.fst ++ [] <+: x.waiting
    rw [List.append_nil]
    exact (List.prefix_append _ b.asked).trans h.waiting
  live := by
    intro hopen
    cases hopen

theorem push (h : x.Carries P b) (hopen : x.closed = false) {m : Message σ} (hm : m.Fits P) :
    (x.push m (m.symbols P)).Carries P (b.push m) := by
  have hwaiting : x.waiting ++ [m] = b.answered.map Prod.fst ++ (b.asked ++ [m]) := by
    rw [h.live hopen, List.append_assoc]
  refine ⟨h.closed, ?_, ?_, h.replies, ?_, fun _ => hwaiting⟩
  · change x.calls ++ m.symbols P = (b.asked ++ [m]).flatMap (Message.symbols P)
    rw [h.calls, List.flatMap_append, List.flatMap_singleton]
  · intro m' hm'
    rcases List.mem_append.mp hm' with hm' | hm'
    · exact h.asked m' hm'
    · rwa [List.mem_singleton.mp hm']
  · exact hwaiting ▸ List.prefix_rfl

theorem reply (h : x.Carries P b) {m : Message σ} {asked : List (Message σ)}
    (hasked : b.asked = m :: asked) {r : Received} {answer : List σ} (hne : answer ≠ [])
    (hreads : ∀ prior, Reads (m.recv P prior) answer r) :
    (x.reply answer (asked.flatMap (Message.symbols P))).Carries P (b.reply m r asked) := by
  have hqueue : (b.answered ++ [(m, r)]).map Prod.fst ++ asked =
      b.answered.map Prod.fst ++ b.asked := by
    rw [List.map_append, List.append_assoc, hasked]
    rfl
  obtain ⟨answers, hreplies, hanswers⟩ := h.replies
  refine ⟨h.closed, rfl, ?_, ⟨answers ++ [answer], ?_, ?_⟩, ?_, ?_⟩
  · intro m' hm'
    exact h.asked m' (hasked ▸ List.mem_cons_of_mem m hm')
  · change x.replies ++ answer = (answers ++ [answer]).flatten
    rw [hreplies, List.flatten_append, List.flatten_singleton]
  · exact List.rel_append hanswers (.cons ⟨hne, hreads⟩ .nil)
  · change (b.answered ++ [(m, r)]).map Prod.fst ++ asked <+: x.waiting
    rw [hqueue]
    exact h.waiting
  · intro hopen
    change x.waiting = (b.answered ++ [(m, r)]).map Prod.fst ++ asked
    rw [hqueue]
    exact h.live hopen

/-- Without an answer there is nothing to read. -/
theorem replies_eq_nil (h : x.Carries P b) (hanswered : b.answered = []) : x.replies = [] := by
  obtain ⟨answers, hreplies, hanswers⟩ := h.replies
  rw [hanswered, List.forall₂_nil_left_iff] at hanswers
  rw [hreplies, hanswers]
  rfl

/-- The client reads the oldest answer, which belongs to the message that it waits for longest. -/
theorem read (h : x.Carries P b) {m : Message σ} {r : Received}
    {answered : List (Message σ × Received)} (hanswered : b.answered = (m, r) :: answered) :
    ∃ rest waiting, x.waiting = m :: waiting ∧ x.replies ≠ [] ∧
      (∀ prior, m.recv P prior x.replies = .ok (r, rest)) ∧
      (x.read rest waiting).Carries P (b.read answered) := by
  obtain ⟨answers, hreplies, hanswers⟩ := h.replies
  rw [hanswered] at hanswers
  obtain ⟨answer, answers, ⟨hne, hreads⟩, hrest, rfl⟩ := List.forall₂_cons_left_iff.mp hanswers
  have hprefix := h.waiting
  rw [hanswered] at hprefix
  obtain ⟨lost, hwaiting⟩ := hprefix
  refine ⟨answers.flatten, answered.map Prod.fst ++ b.asked ++ lost, hwaiting.symm, ?_, ?_, ?_⟩
  · rw [hreplies]
    simp [hne]
  · intro prior
    rw [hreplies]
    exact hreads prior answers.flatten
  · refine ⟨h.closed, h.calls, h.asked, ⟨answers, rfl, hrest⟩, List.prefix_append _ _, ?_⟩
    intro hopen
    have hlive := h.live hopen
    rw [← hwaiting, hanswered] at hlive
    exact (List.cons.inj hlive).2

/-- There are no symbols without a message. -/
theorem calls_eq_nil_iff (hP : P.Lawful) (h : x.Carries P b) : x.calls = [] ↔ b.asked = [] := by
  rw [h.calls]
  rcases hasked : b.asked with _ | ⟨m, asked⟩
  · simp
  · have hm : m.Fits P := h.asked m (hasked ▸ List.mem_cons_self)
    have hne := hP.messageBegin_ne_nil hm.length_name .call m.seqid
    simp [Message.symbols, NumeratorProcessor.message, hne]

end Connection.Carries

namespace Wire.Carries

variable {P : Protocol σ} {d : Mailboxes C σ} {w : Wire C σ}

theorem set (h : w.Carries P d) (c : C) {x : Connection σ} {b : Mailbox σ}
    (hx : x.Carries P b) : Wire.Carries P (d.set c b) (w.set c x) where
  node := h.node
  fits := h.fits
  connections := by
    intro c'
    by_cases heq : c' = c
    · subst heq
      simpa [Wire.set, Mailboxes.set] using hx
    · simpa [Wire.set, Mailboxes.set, heq] using h.connections c'

omit [DecidableEq C] in
theorem move (h : w.Carries P d) {n : Node} (hn : n.Fits) :
    Wire.Carries P { d with node := n } { w with node := n } where
  node := rfl
  fits := hn
  connections := h.connections

omit [DecidableEq C] in
theorem hangUp (h : w.Carries P d) {n : Node} (hn : n.Fits) :
    Wire.Carries P (d.hangUp n) (w.hangUp n) where
  node := rfl
  fits := hn
  connections := fun c => (h.connections c).hangUp

theorem send (h : w.Carries P d) (c : C) {m : Message σ} (hm : m.Fits P) :
    (d.send c m).1 = (w.send c m (m.symbols P)).1 ∧
      Wire.Carries P (d.send c m).2 (w.send c m (m.symbols P)).2 := by
  have hc := h.connections c
  unfold Mailboxes.send Wire.send
  rw [hc.closed]
  rcases hclosed : (w.connections c).closed
  · exact ⟨rfl, h.set c (hc.push hclosed hm)⟩
  · exact ⟨rfl, h⟩

theorem receive (h : w.Carries P d) (c : C) (response : Query) :
    (d.receive c).1 = (w.receive P c response).1 ∧
      Wire.Carries P (d.receive c).2 (w.receive P c response).2 := by
  have hc := h.connections c
  unfold Mailboxes.receive Wire.receive
  rcases hanswered : (d.boxes c).answered with _ | ⟨⟨m, r⟩, answered⟩
  · rw [hc.replies_eq_nil hanswered]
    rcases (w.connections c).waiting with _ | ⟨m, waiting⟩ <;> exact ⟨rfl, h⟩
  · obtain ⟨rest, waiting, hwaiting, hne, hrecv, hread⟩ := hc.read hanswered
    simp only [hwaiting, List.isEmpty_iff, if_neg hne, hrecv]
    exact ⟨trivial, h.set c hread⟩

/-- The processor reads the oldest message of the connection and answers it. -/
theorem serve (hP : P.Lawful) (h : w.Carries P d) (c : C) (env : Surroundings) :
    Option.Rel (fun p q => p.1 = q.1 ∧ Wire.Carries P p.2 q.2) (d.serve c env)
      (w.serve P c env) := by
  have hc := h.connections c
  unfold Mailboxes.serve Wire.serve
  simp only [List.isEmpty_iff]
  rcases hasked : (d.boxes c).asked with _ | ⟨m, asked⟩
  · rw [if_pos ((hc.calls_eq_nil_iff hP).mpr hasked)]
    exact .some ⟨rfl, h⟩
  · have hne : (w.connections c).calls ≠ [] := by
      rw [Ne, hc.calls_eq_nil_iff hP, hasked]
      exact List.cons_ne_nil m asked
    have hm : m.Fits P := hc.asked m (hasked ▸ List.mem_cons_self)
    have hcalls := hc.calls
    rw [hasked, List.flatMap_cons] at hcalls
    have hgives := process_gives hP hm env h.fits (asked.flatMap (Message.symbols P))
    rw [if_neg hne, hcalls, h.node]
    generalize NumeratorProcessor.process P env w.node _ = processed at hgives ⊢
    rcases hreply : m.reply env w.node with _ | ⟨result, n⟩
    · rw [hreply] at hgives
      cases hgives
      simp only [hreply]
      exact .none
    · have hn : n.Fits := Message.fits_reply hm h.fits hreply
      rw [hreply] at hgives
      simp only [hreply]
      cases hgives with
      | @some _ processed hgives =>
        cases hgives with
        | answered n r answer hne hreads =>
          exact .some ⟨rfl, (h.move hn).set c (hc.reply hasked hne hreads)⟩
        | exited n => exact .some ⟨rfl, h.hangUp hn⟩

theorem step (hP : P.Lawful) (h : w.Carries P d) {a : NetworkAction C σ} (ha : a.Fits P) :
    Option.Rel (fun p q => p.1 = q.1 ∧ Wire.Carries P p.2 q.2) (d.step a) (w.step P a) := by
  cases a with
  | connect c =>
    simp only [Mailboxes.step, Wire.step, h.node]
    exact .some ⟨rfl, h.set c (Connection.Carries.fresh _)⟩
  | call c call =>
    simp only [Mailboxes.step, Wire.step, ← Message.symbols_ofCall]
    exact .some (h.send c (Message.fits_ofCall ha))
  | send c m => exact .some (h.send c ha)
  | serve c env => exact h.serve hP c env
  | receive c response => exact .some (h.receive c response)
  | start it judy =>
    simp only [Mailboxes.step, Wire.step, h.node]
    rcases hlive : w.node.live (.start it judy) with _ | ⟨o, n⟩
    · exact .none
    · exact .some ⟨rfl, h.move (fits_live (by simp) hlive h.fits)⟩
  | stop =>
    simp only [Mailboxes.step, Wire.step, h.node]
    rcases hlive : w.node.live .stop with _ | ⟨o, n⟩
    · exact .none
    · exact .some ⟨rfl, h.hangUp (fits_live (by simp) hlive h.fits)⟩

end Wire.Carries

omit [DecidableEq C] in
theorem carries_start {P : Protocol σ} {n : Node} (hn : n.Fits) :
    (Wire.start n : Wire C σ).Carries P (Mailboxes.start n) where
  node := rfl
  fits := hn
  connections := fun _ => Connection.Carries.fresh true

/-- Whatever the clients send, in whatever order it is served, the streams of symbols make no
    difference to queues of messages and results. -/
theorem wire_mailboxes (P : Protocol σ) (hP : P.Lawful) (n : Node) (hn : n.Fits)
    (actions : List (NetworkAction C σ)) (hactions : ∀ a ∈ actions, a.Fits P) :
    (Machine.run (Wire.step P) (Wire.start n) actions).map
        (fun p => (p.1.map Machine.Record.output, p.2.node)) =
      (Machine.run Mailboxes.step (Mailboxes.start n) actions).map
        (fun p => (p.1.map Machine.Record.output, p.2.node)) := by
  have hstep : ∀ (d : Mailboxes C σ) (w : Wire C σ) (a : NetworkAction C σ), a.Fits P →
      w.Carries P d → Option.Rel (fun p q => p.1 = q.1 ∧ Wire.Carries P p.2 q.2) (d.step a)
        (w.step P a) := fun _ _ _ ha h => h.step hP ha
  have hlockstep := Machine.run_lockstep (Wire.Carries P) (NetworkAction.Fits P) hstep
    (carries_start hn) hactions
  generalize Machine.run Mailboxes.step (Mailboxes.start n) actions = x at hlockstep
  generalize Machine.run (Wire.step P) (Wire.start n) actions = y at hlockstep
  cases hlockstep with
  | none => rfl
  | some h =>
    rw [Option.map_some, Option.map_some, h.1, h.2.node]

/-- Two clients, one of them with a method that the server does not have, and a second process
    that a lookup comes to. -/
def visit : List (NetworkAction Bool UInt8) :=
  let stored : Store := ((∅ : Store).insert 1 [97]).insert 2 [98]
  [.start (newIterator ∅) fun _ => {}, .connect true, .connect false,
    .call true (.query { op := .STR2ID, strings := [[97], [98]] }),
    .send false ⟨7, "Numerator_count_args", .other [99] []⟩,
    .serve false { it := newIterator ∅ }, .serve true { it := newIterator ∅ }, .receive true {},
    .receive false {}, .stop,
    .start (newIterator stored) fun _ => {}, .connect false,
    .call false (.query { op := .ID2STR, ids := [2, 3] }),
    .serve false { it := newIterator stored }, .receive false {}]

theorem fits_visit : ∀ a ∈ visit, a.Fits Binary.protocol := by
  have hskip : Reads (Binary.protocol.skip 0 .struct)
      (Binary.protocol.writeStruct "Numerator_count_args" []) () :=
    Binary.reads_skip_struct 63 "Numerator_count_args" (by simp)
  have hnumber : Query.Fits { op := .STR2ID, strings := [[97], [98]] } := by decide
  have hlookup : Query.Fits { op := .ID2STR, ids := [2, 3] } := by decide
  simp only [visit, List.forall_mem_cons, NetworkAction.Fits, ClientCall.Fits, Message.Fits]
  have hname : ([99] : Bytes) ≠ messageBytes "ping" ∧ ([99] : Bytes) ≠ messageBytes "query" ∧
      ([99] : Bytes) ≠ messageBytes "disable_s2i" ∧ ([99] : Bytes) ≠ messageBytes "enable_s2i" := by
    decide
  have hlength : ([99] : Bytes).length < 2 ^ 31 - 100 := by norm_num
  exact ⟨trivial, trivial, trivial, hnumber,
    ⟨hlength, hname.1, hname.2.1, hname.2.2.1, hname.2.2.2, hskip⟩, trivial, trivial, trivial,
    trivial, trivial, trivial, trivial, hlookup, trivial, trivial, by simp⟩

theorem fits_empty : (Node.stopped ∅).Fits := by
  intro id str hstr
  simp [Node.store] at hstr

theorem wire_mailboxes_visit :
    (Machine.run (Wire.step Binary.protocol) (Wire.start (.stopped ∅)) visit).isSome = true ∧
      (Machine.run (Wire.step Binary.protocol) (Wire.start (.stopped ∅)) visit).map
          (fun p => (p.1.map Machine.Record.output, p.2.node)) =
        (Machine.run Mailboxes.step (Mailboxes.start (.stopped ∅)) visit).map
          (fun p => (p.1.map Machine.Record.output, p.2.node)) :=
  ⟨by decide +kernel,
    wire_mailboxes Binary.protocol Binary.lawful (.stopped ∅) fits_empty visit fits_visit⟩

end Numerator
