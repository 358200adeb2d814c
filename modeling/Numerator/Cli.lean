import Numerator.CountedBatches
import Numerator.Lines
import Numerator.LookupReply
import Numerator.Restore

/-!
# The command-line client

`do_query` and `run` of `numeratorcli.cpp`. The lines of a file are collected in
one of two vectors and sent in batches, and the batches are cut by the local
`cnt`, which has no first value. What the service replies may depend on all the
requests before.
-/

namespace Numerator

namespace NumeratorCli

open InputStream CountedBatches DiskStorage

structure CmdLineArgs where
  type : String
  data : String
  batchSize : UInt64
deriving DecidableEq, Repr

/-- Why `run` does not return. -/
inductive RunFault where
  | notOpened (data : String)
  | notReserved (what : String)
  | badLexicalCast
  | notServed (what : String)
  | undefined (f : Fault)
deriving DecidableEq, Repr

/-- What `run` finds: the content of `cnt` before its first assignment, the exceptions of the
    two reservations, and the service behind the client. -/
structure RunEnv where
  cnt : UInt64
  client : List Query → Query → Except String Query
  reserveStrings : UInt64 → Option String := fun _ => none
  reserveIds : UInt64 → Option String := fun _ => none

/-- The requests that have been sent, and the lines that have been printed. -/
structure Session where
  requests : List Query := []
  output : List Bytes := []
deriving DecidableEq, Repr

/-! ### `do_query` -/

def notFound : Bytes := "!!! NOT FOUND !!!".toUTF8.toList

def doQuery (client : List Query → Query → Except String Query) (session : Session)
    (op : Operation) (ids : List NumID) (strings : List Bytes) :
    Session × Except RunFault Unit :=
  let request : Query := { op := op, strings := strings, ids := ids }
  let sent : Session := { session with requests := session.requests ++ [request] }
  match client session.requests request with
  | .error what => (sent, .error (.notServed what))
  | .ok result =>
    if op = .STR2ID then
      ({ sent with
          output := sent.output ++ result.ids.map fun id => Decimal.printInt id.toInt }, .ok ())
    else
      match readStrings result.failures 0 result.strings with
      | .error f => (sent, .error (.undefined f))
      | .ok strings =>
        ({ sent with output := sent.output ++ strings.map fun v => v.getD notFound }, .ok ())

/-- With a service that replies, and with lists that Thrift can carry, a query goes through. -/
theorem doQuery_ok {client : List Query → Query → Except String Query}
    (hclient : ∀ sent request, ∃ result, client sent request = .ok result ∧
      result.strings.length ≤ 2 ^ 31 - 1)
    (session : Session) (op : Operation) (ids : List NumID) (strings : List Bytes) :
    ∃ output, doQuery client session op ids strings =
      (⟨session.requests ++ [{ op := op, strings := strings, ids := ids }], output⟩, .ok ()) := by
  obtain ⟨result, hresult, hlength⟩ :=
    hclient session.requests { op := op, strings := strings, ids := ids }
  simp only [doQuery, hresult]
  split
  · exact ⟨_, rfl⟩
  · rw [readStrings_eq _ _ _ (by simpa using hlength)]
    exact ⟨_, rfl⟩

/-! ### `run` -/

def operation (type : String) : Operation := if type = "s2i" then .STR2ID else .ID2STR

structure RunLoop where
  stream : InputStream
  line : Bytes
  cnt : UInt64
  ids : List NumID
  strings : List Bytes
  session : Session

/-- One line goes into one of the vectors, unless it is not a number where one is needed. -/
def push (op : Operation) (line : Bytes) (ids : List NumID) (strings : List Bytes) :
    Option (List NumID × List Bytes) :=
  match op with
  | .STR2ID => some (ids, strings ++ [line])
  | .ID2STR => (lexicalCast line).map fun id => (ids ++ [id], strings)
  | .unknown _ => some (ids, strings)

def runBody (client : List Query → Query → Except String Query) (op : Operation)
    (batchSize : UInt64) (l : RunLoop) : RunLoop ⊕ (Session × Except RunFault Unit) :=
  match l.stream.getline l.line with
  | (line, stream) =>
    if stream.fails then
      .inr (if l.cnt > 0 then doQuery client l.session op l.ids l.strings else (l.session, .ok ()))
    else
      match push op line l.ids l.strings with
      | none => .inr (l.session, .error .badLexicalCast)
      | some (ids, strings) =>
        let cnt := l.cnt + 1
        if cnt ≥ batchSize then
          match doQuery client l.session op ids strings with
          | (session, .error f) => .inr (session, .error f)
          | (session, .ok ()) => .inl ⟨stream, line, 0, [], [], session⟩
        else .inl ⟨stream, line, cnt, ids, strings, l.session⟩

/-- The file is `none` when it cannot be opened. -/
def run (env : RunEnv) (fuel : Nat) (args : CmdLineArgs) (file : Option InputStream) :
    Option (Session × Except RunFault Unit) :=
  match file with
  | none => some ({}, .error (.notOpened args.data))
  | some stream =>
    match env.reserveStrings args.batchSize with
    | some what => some ({}, .error (.notReserved what))
    | none =>
      match env.reserveIds args.batchSize with
      | some what => some ({}, .error (.notReserved what))
      | none =>
        WhileLoop.run (runBody env.client (operation args.type) args.batchSize) fuel
          ⟨stream, [], env.cnt, [], [], {}⟩

/-- The call returns, after this session and with this result. -/
def Runs (env : RunEnv) (args : CmdLineArgs) (file : Option InputStream)
    (r : Session × Except RunFault Unit) : Prop :=
  ∃ fuel, run env fuel args file = some r

/-! ### Items -/

/-- What a line is in a query of this kind, if it can be sent. -/
def item (op : Operation) (line : Bytes) : Option (Bytes ⊕ NumID) :=
  match op with
  | .STR2ID => some (.inl line)
  | .ID2STR => (lexicalCast line).map .inr
  | .unknown _ => none

/-- What a request carries. -/
def items (q : Query) : List (Bytes ⊕ NumID) := q.strings.map .inl ++ q.ids.map .inr

/-- The request for some lines of the file. -/
def request (op : Operation) (lines : List Bytes) : Query :=
  match op with
  | .STR2ID => { op := op, strings := lines }
  | .ID2STR => { op := op, ids := lines.filterMap lexicalCast }
  | .unknown _ => { op := op }

theorem request_eq (op : Operation) (lines : List Bytes) :
    { op := op, strings := (request op lines).strings, ids := (request op lines).ids } =
      request op lines := by
  cases op <;> rfl

theorem items_request (op : Operation) (lines : List Bytes) :
    items (request op lines) = lines.filterMap (item op) := by
  cases op with
  | STR2ID =>
    have hitem : item .STR2ID = fun line => some (.inl line) := rfl
    rw [hitem, List.filterMap_eq_map']
    simp [items, request]
  | ID2STR =>
    have hitem : item .ID2STR = fun line => (lexicalCast line).map .inr := rfl
    rw [hitem, ← List.map_filterMap]
    rfl
  | unknown code =>
    have hitem : item (.unknown code) = fun _ => none := rfl
    rw [hitem, List.filterMap_none]
    rfl

theorem push_request {op : Operation} {line : Bytes} (h : item op line ≠ none)
    (pending : List Bytes) :
    push op line (request op pending).ids (request op pending).strings =
      some ((request op (pending ++ [line])).ids, (request op (pending ++ [line])).strings) := by
  cases op with
  | STR2ID => rfl
  | ID2STR =>
    rcases hid : lexicalCast line with _ | id
    · exact absurd (by rw [item, hid]; rfl) h
    · simp [push, request, hid]
  | unknown code => exact absurd rfl h

theorem map_some_filterMap_item {op : Operation} {lines : List Bytes}
    (h : ∀ line ∈ lines, item op line ≠ none) :
    (lines.filterMap (item op)).map some = lines.map (item op) := by
  rw [List.map_filterMap_some_eq_filter_map_isSome, List.filter_eq_self]
  intro o ho
  obtain ⟨line, hline, rfl⟩ := List.mem_map.mp ho
  exact Option.isSome_iff_ne_none.mpr (h line hline)

theorem length_items_request {op : Operation} {lines : List Bytes}
    (h : ∀ line ∈ lines, item op line ≠ none) :
    (items (request op lines)).length = lines.length := by
  rw [items_request]
  simpa using congrArg List.length (map_some_filterMap_item h)

/-! ### Whole files -/

theorem toNat_increment (cnt : UInt64) : (cnt + 1).toNat = (cnt.toNat + 1) % 2 ^ 64 := by
  rw [UInt64.toNat_add]
  rfl

section Run

variable {client : List Query → Query → Except String Query} {op : Operation}
variable {batchSize : UInt64} {l : RunLoop} {pending lines : List Bytes} {line : Bytes}

/-- The vectors hold what these lines have put into them. -/
structure RunLoop.Collected (op : Operation) (l : RunLoop) (pending : List Bytes) : Prop where
  ids : l.ids = (request op pending).ids
  strings : l.strings = (request op pending).strings

theorem RunLoop.collected_nil (h : l.ids = [] ∧ l.strings = []) : l.Collected op [] := by
  cases op <;> exact ⟨h.1, h.2⟩

/-- Behind the last line the rest is sent, if the counter has counted one. -/
theorem runBody_nil
    (hclient : ∀ sent request, ∃ result, client sent request = .ok result ∧
      result.strings.length ≤ 2 ^ 31 - 1)
    (hlines : l.stream.HasLines []) (hl : l.Collected op pending) :
    ∃ output, runBody client op batchSize l =
      .inr (⟨l.session.requests ++
        (batches (2 ^ 64) batchSize.toNat l.cnt.toNat pending []).map (request op), output⟩,
        .ok ()) := by
  have hfails : (l.stream.getline l.line).2.fails = true := hlines.getline_nil l.line
  obtain ⟨output, hquery⟩ := doQuery_ok hclient l.session op l.ids l.strings
  rw [hl.ids, hl.strings, request_eq] at hquery
  by_cases hcnt : l.cnt > 0
  · have hpos : 0 < l.cnt.toNat := UInt64.lt_iff_toNat_lt.mp hcnt
    refine ⟨output, ?_⟩
    simp only [runBody, hfails, if_true, if_pos hcnt, hl.ids, hl.strings, hquery, batches,
      if_pos hpos, List.map_cons, List.map_nil]
  · have hzero : ¬ 0 < l.cnt.toNat := fun hpos => hcnt (UInt64.lt_iff_toNat_lt.mpr hpos)
    refine ⟨l.session.output, ?_⟩
    simp only [runBody, hfails, if_true, if_neg hcnt, batches, if_neg hzero, List.map_nil,
      List.append_nil]

/-- The line that fills a batch sends it. -/
theorem runBody_full
    (hclient : ∀ sent request, ∃ result, client sent request = .ok result ∧
      result.strings.length ≤ 2 ^ 31 - 1)
    (hlines : l.stream.HasLines (line :: lines)) (hline : item op line ≠ none)
    (hl : l.Collected op pending) (hfull : l.cnt + 1 ≥ batchSize) :
    ∃ l', runBody client op batchSize l = .inl l' ∧ l'.stream.HasLines lines ∧
      l'.Collected op [] ∧ l'.cnt = 0 ∧
      l'.session.requests = l.session.requests ++ [request op (pending ++ [line])] := by
  obtain ⟨stream, hgetline, hfails, hstream⟩ := hlines.getline_cons l.line
  have hpush := push_request hline pending
  rw [← hl.ids, ← hl.strings] at hpush
  obtain ⟨output, hquery⟩ := doQuery_ok hclient l.session op
    (request op (pending ++ [line])).ids (request op (pending ++ [line])).strings
  rw [request_eq] at hquery
  refine ⟨⟨stream, line, 0, [], [],
    ⟨l.session.requests ++ [request op (pending ++ [line])], output⟩⟩, ?_, hstream,
    RunLoop.collected_nil ⟨rfl, rfl⟩, rfl, rfl⟩
  simp only [runBody, hgetline, hfails, Bool.false_eq_true, if_false, hpush, if_pos hfull, hquery]

/-- Any other line is only collected. -/
theorem runBody_collects (client : List Query → Query → Except String Query)
    (hlines : l.stream.HasLines (line :: lines)) (hline : item op line ≠ none)
    (hl : l.Collected op pending) (hfull : ¬ l.cnt + 1 ≥ batchSize) :
    ∃ l', runBody client op batchSize l = .inl l' ∧ l'.stream.HasLines lines ∧
      l'.Collected op (pending ++ [line]) ∧ l'.cnt = l.cnt + 1 ∧ l'.session = l.session := by
  obtain ⟨stream, hgetline, hfails, hstream⟩ := hlines.getline_cons l.line
  have hpush := push_request hline pending
  rw [← hl.ids, ← hl.strings] at hpush
  refine ⟨⟨stream, line, l.cnt + 1, (request op (pending ++ [line])).ids,
    (request op (pending ++ [line])).strings, l.session⟩, ?_, hstream, ⟨rfl, rfl⟩, rfl, rfl⟩
  simp only [runBody, hgetline, hfails, Bool.false_eq_true, if_false, hpush, if_neg hfull]

/-- Whatever `cnt` holds, the requests are the batches that it counts. -/
theorem returns_batches
    (hclient : ∀ sent request, ∃ result, client sent request = .ok result ∧
      result.strings.length ≤ 2 ^ 31 - 1)
    (batchSize : UInt64) (lines : List Bytes) (hsend : ∀ line ∈ lines, item op line ≠ none)
    (l : RunLoop) (pending : List Bytes) (hlines : l.stream.HasLines lines)
    (hl : l.Collected op pending) :
    ∃ output, WhileLoop.Returns (runBody client op batchSize) l
      (⟨l.session.requests ++
        (batches (2 ^ 64) batchSize.toNat l.cnt.toNat pending lines).map (request op), output⟩,
        .ok ()) := by
  induction lines generalizing l pending with
  | nil =>
    obtain ⟨output, hbody⟩ := runBody_nil hclient hlines hl
    exact ⟨output, WhileLoop.returns_of_done hbody⟩
  | cons line lines ih =>
    obtain ⟨hline, hrest⟩ := List.forall_mem_cons.mp hsend
    have hlimit : l.cnt + 1 ≥ batchSize ↔ batchSize.toNat ≤ (l.cnt.toNat + 1) % 2 ^ 64 := by
      rw [← toNat_increment]
      exact UInt64.le_iff_toNat_le
    by_cases hfull : l.cnt + 1 ≥ batchSize
    · obtain ⟨l', hbody, hlines', hl', hcnt, hrequests⟩ :=
        runBody_full hclient hlines hline hl hfull
      obtain ⟨output, hreturns⟩ := ih hrest l' [] hlines' hl'
      refine ⟨output, ?_⟩
      rw [hrequests, hcnt] at hreturns
      rw [batches, if_pos (hlimit.mp hfull), List.map_cons, List.append_cons]
      exact hreturns.step hbody
    · obtain ⟨l', hbody, hlines', hl', hcnt, hsession⟩ :=
        runBody_collects client hlines hline hl hfull
      obtain ⟨output, hreturns⟩ := ih hrest l' (pending ++ [line]) hlines' hl'
      refine ⟨output, ?_⟩
      rw [hsession, hcnt, toNat_increment] at hreturns
      rw [batches, if_neg (hlimit.not.mp hfull)]
      exact hreturns.step hbody

end Run

/-- Both reservations succeed. -/
def RunEnv.Reserves (env : RunEnv) (batchSize : UInt64) : Prop :=
  env.reserveStrings batchSize = none ∧ env.reserveIds batchSize = none

theorem runs_of_reserves {env : RunEnv} {args : CmdLineArgs} (h : env.Reserves args.batchSize)
    (stream : InputStream) (r : Session × Except RunFault Unit) :
    Runs env args (some stream) r ↔
      WhileLoop.Returns (runBody env.client (operation args.type) args.batchSize)
        ⟨stream, [], env.cnt, [], [], {}⟩ r := by
  simp only [Runs, run, h.1, h.2]
  rfl

theorem runs_of_not_reserves {env : RunEnv} {args : CmdLineArgs}
    (h : ¬ env.Reserves args.batchSize) (stream : InputStream) :
    ∃ what, ∀ r, Runs env args (some stream) r ↔ r = ({}, .error (.notReserved what)) := by
  unfold Runs run
  rcases hstrings : env.reserveStrings args.batchSize with _ | what
  · rcases hids : env.reserveIds args.batchSize with _ | what
    · exact absurd ⟨hstrings, hids⟩ h
    · exact ⟨what, by simp [eq_comm]⟩
  · exact ⟨what, by simp [eq_comm]⟩

/-! ### Every line once -/

/-- All requests are of the kind that was asked for, they carry the lines of the file, in their
    order and each of them once, and none carries more than the batch size. -/
structure SendsEachOnce (args : CmdLineArgs) (lines : List Bytes) (requests : List Query) :
    Prop where
  kind : ∀ q ∈ requests, q.op = operation args.type
  carried : (requests.flatMap items).map some = lines.map (item (operation args.type))
  bounded : ∀ q ∈ requests, (items q).length ≤ args.batchSize.toNat

theorem op_request (op : Operation) (lines : List Bytes) : (request op lines).op = op := by
  cases op <;> rfl

theorem flatMap_items_request (op : Operation) (parts : List (List Bytes)) :
    (parts.map (request op)).flatMap items = parts.flatten.filterMap (item op) := by
  have hitems : items ∘ request op = List.filterMap (item op) := funext (items_request op)
  rw [List.flatMap_def, List.map_map, hitems, List.filterMap_flatten]

theorem sendsEachOnce_batches_iff (args : CmdLineArgs) (cnt : UInt64) (lines : List Bytes)
    (hbatch : 0 < args.batchSize)
    (hsend : ∀ line ∈ lines, item (operation args.type) line ≠ none) :
    SendsEachOnce args lines
        ((batches (2 ^ 64) args.batchSize.toNat cnt.toNat [] lines).map
          (request (operation args.type))) ↔
      ¬ Wraps (2 ^ 64) args.batchSize.toNat cnt.toNat lines := by
  have hpos : 0 < args.batchSize.toNat := UInt64.lt_iff_toNat_lt.mp hbatch
  have hlimit : args.batchSize.toNat < 2 ^ 64 := args.batchSize.toNat_lt
  -- the lines of a batch are lines of the file
  have hlength : ∀ batch ∈ batches (2 ^ 64) args.batchSize.toNat cnt.toNat [] lines,
      (items (request (operation args.type) batch)).length = batch.length := by
    intro batch hmem
    apply length_items_request
    intro line hline
    exact hsend line ((mem_of_mem_batches hmem hline).resolve_left List.not_mem_nil)
  constructor
  · intro h hwraps
    rcases batches_of_wraps hwraps hpos hlimit with ⟨hone, hnil⟩ | ⟨batch, hmem, hlong⟩
    · have hcarried := congrArg List.length h.carried
      rw [hnil] at hcarried
      simp [hone] at hcarried
    · have hbounded := h.bounded _ (List.mem_map_of_mem hmem)
      rw [hlength batch hmem] at hbounded
      omega
  · intro hwraps
    obtain ⟨hflatten, hbounded⟩ := batches_exact hpos hlimit cnt.toNat_lt hwraps
    refine ⟨?_, ?_, ?_⟩
    · intro q hq
      obtain ⟨batch, -, rfl⟩ := List.mem_map.mp hq
      exact op_request _ batch
    · rw [flatMap_items_request, hflatten]
      exact map_some_filterMap_item hsend
    · intro q hq
      obtain ⟨batch, hmem, rfl⟩ := List.mem_map.mp hq
      rw [hlength batch hmem]
      exact hbounded batch hmem

/-- A run sends every line exactly once, unless `cnt` begins with its greatest value and the file
    has one line or more than one batch. -/
theorem sendsEachOnce_iff (env : RunEnv) (args : CmdLineArgs) (content : Bytes)
    (hclient : ∀ sent request, ∃ result, env.client sent request = .ok result ∧
      result.strings.length ≤ 2 ^ 31 - 1)
    (hbatch : 0 < args.batchSize)
    (hvalid : args.type ≠ "s2i" → ∀ line ∈ fileLines content, lexicalCast line ≠ none) :
    (∃ session result, Runs env args (some (.ofBytes content)) (session, result) ∧
        SendsEachOnce args (fileLines content) session.requests) ↔
      (fileLines content ≠ [] → env.Reserves args.batchSize) ∧
        ¬ Wraps (2 ^ 64) args.batchSize.toNat env.cnt.toNat (fileLines content) := by
  have hsend : ∀ line ∈ fileLines content, item (operation args.type) line ≠ none := by
    intro line hline
    unfold operation item
    split_ifs with htype
    · exact Option.some_ne_none _
    · simpa using hvalid htype line hline
  by_cases hreserves : env.Reserves args.batchSize
  · simp only [runs_of_reserves hreserves]
    obtain ⟨output, hreturns⟩ := returns_batches hclient args.batchSize (fileLines content) hsend
      ⟨.ofBytes content, [], env.cnt, [], [], {}⟩ [] (hasLines_ofBytes content)
      (RunLoop.collected_nil ⟨rfl, rfl⟩)
    rw [List.nil_append] at hreturns
    rw [← sendsEachOnce_batches_iff args env.cnt _ hbatch hsend]
    constructor
    · rintro ⟨session, result, hreturns', hsends⟩
      cases hreturns.unique hreturns'
      exact ⟨fun _ => hreserves, hsends⟩
    · rintro ⟨-, hsends⟩
      exact ⟨_, _, hreturns, hsends⟩
  · obtain ⟨what, hruns⟩ := runs_of_not_reserves hreserves (.ofBytes content)
    simp only [hruns]
    constructor
    · rintro ⟨session, result, heq, hsends⟩
      cases heq
      have hnil : fileLines content = [] := by
        simpa using hsends.carried.symm
      refine ⟨fun hne => absurd hnil hne, ?_⟩
      rw [hnil]
      rintro ⟨-, hone | hmany⟩
      · cases hone
      · exact Nat.not_lt_zero _ hmany
    · rintro ⟨hne, -⟩
      have hnil : fileLines content = [] := by
        by_contra hlines
        exact hreserves (hne hlines)
      rw [hnil]
      exact ⟨_, _, rfl, by simp, rfl, by simp⟩

/-- Three ids in batches of two, sent to a service with an empty database. -/
theorem sendsEachOnce_iff_missing_ids :
    let client : List Query → Query → Except String Query := fun _ q =>
      .ok {
        op := q.op
        strings := (q.ids.map fun _ => []).take (2 ^ 31 - 1)
        failures := q.ids.mapIdx fun i _ => i }
    ∃ session result,
      Runs { cnt := 5, client := client } ⟨"i2s", "ids", 2⟩
          (some (.ofBytes [49, 10, 45, 50, 10, 49])) (session, result) ∧
        SendsEachOnce ⟨"i2s", "ids", 2⟩ (fileLines [49, 10, 45, 50, 10, 49]) session.requests := by
  intro client
  apply (sendsEachOnce_iff _ ⟨"i2s", "ids", 2⟩ [49, 10, 45, 50, 10, 49] ?_ (by decide) ?_).mpr
  · exact ⟨fun _ => ⟨rfl, rfl⟩, fun hwraps => absurd hwraps.1 (by decide)⟩
  · exact fun _ q => ⟨_, rfl, List.length_take_le _ _⟩
  · exact fun _ => by decide

/-- With the greatest value in `cnt` the only line of a file is not sent at all, and three
    lines are sent at once in spite of a batch size of two. -/
theorem not_sendsEachOnce_wrapped :
    let client : List Query → Query → Except String Query := fun _ q =>
      .ok { op := q.op, ids := q.strings.mapIdx fun i _ => Int64.ofNat (i + 1) }
    let env : RunEnv := { cnt := 18446744073709551615, client := client }
    Runs env ⟨"s2i", "strings", 2⟩ (some (.ofBytes [97, 10])) ({}, .ok ()) ∧
      Runs env ⟨"s2i", "strings", 2⟩ (some (.ofBytes [97, 10, 98, 10, 99, 10]))
        (⟨[{ op := .STR2ID, strings := [[97], [98], [99]] }], [[49], [50], [51]]⟩, .ok ()) ∧
      ∀ content ∈ [[97, 10], [97, 10, 98, 10, 99, 10]], ¬ ∃ session result,
        Runs env ⟨"s2i", "strings", 2⟩ (some (.ofBytes content)) (session, result) ∧
          SendsEachOnce ⟨"s2i", "strings", 2⟩ (fileLines content) session.requests := by
  intro client env
  have hreserves : env.Reserves 2 := ⟨rfl, rfl⟩
  have hone : Runs env ⟨"s2i", "strings", 2⟩ (some (.ofBytes [97, 10])) ({}, .ok ()) :=
    ⟨2, by decide⟩
  have hthree : Runs env ⟨"s2i", "strings", 2⟩ (some (.ofBytes [97, 10, 98, 10, 99, 10]))
      (⟨[{ op := .STR2ID, strings := [[97], [98], [99]] }], [[49], [50], [51]]⟩, .ok ()) :=
    ⟨4, by decide⟩
  refine ⟨hone, hthree, ?_⟩
  rintro content hcontent ⟨session, result, hruns, hsends⟩
  rw [runs_of_reserves hreserves] at hone hthree hruns
  rcases List.mem_cons.mp hcontent with rfl | hcontent
  · cases hone.unique hruns
    exact absurd hsends.carried (by decide)
  · obtain rfl := List.mem_singleton.mp hcontent
    cases hthree.unique hruns
    exact absurd (hsends.bounded _ List.mem_cons_self) (by decide)

end NumeratorCli

end Numerator
