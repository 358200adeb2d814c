import Numerator.QuerySteps
import Numerator.Refinement

/-!
# Concurrent clients

Any number of threads serve calls, one atomic step at a time. Queries take the
mutex; the toggles do not, so they can change memory and flag in the middle of a
STR2ID loop. The libraries do not fail here.
-/

namespace Numerator

open Std FiniteMap DiskStorage

/-- The steps of a toggle: reading the flag, changing the memory and setting the flag. -/
inductive TogglePoint where
  | check
  | memory
  | flag
deriving DecidableEq

inductive Thread where
  | idle
  | query (request : Query) (stage : Stage)
  | disable (point : TogglePoint)
  | enable (point : TogglePoint)
deriving DecidableEq

inductive Call where
  | query (request : Query)
  | disableS2i
  | enableS2i
deriving DecidableEq

/-- A call arrives at an idle thread, or a thread makes its next step. -/
inductive Action (T : Type) where
  | call (t : T) (c : Call)
  | step (t : T)
deriving DecidableEq

structure World (T : Type) where
  server : Server
  mutex : Option T
  threads : T → Thread

namespace World

variable {T : Type} [DecidableEq T]

/-- A step of thread `t` to the state `thread` that leaves the mutex alone. -/
def go (w : World T) (t : T) (server : Server) (thread : Thread) : World T :=
  { w with server := server, threads := Function.update w.threads t thread }

/-- A step of a query and what it returns to the client. Without failing libraries
    the exit of the process is not reached. -/
def stepQuery (w : World T) (t : T) (request : Query) :
    Stage → Option (Option (Query × Outcome) × World T)
  | .called =>
    match w.mutex with
    | none => some (none, { w.go t w.server (.query request .locked) with mutex := some t })
    | some _ => none
  | .finished (.ok response) =>
      some (some (request, .response response), { w.go t w.server .idle with mutex := none })
  | .finished (.error (.numeratorException e)) =>
      some (some (request, .refused e), { w.go t w.server .idle with mutex := none })
  | .finished (.error _) => none
  | stage =>
    match Server.stepQuery {} request w.server stage with
    | none => none
    | some (s, stage') => some (none, w.go t s (.query request stage'))

def stepDisable (w : World T) (t : T) : TogglePoint → World T
  | .check =>
      if w.server.disableS2iQueries then w.go t w.server .idle
      else w.go t w.server (.disable .memory)
  | .memory =>
      w.go t { w.server with memoryStorage := MemoryStorage.unload w.server.memoryStorage }
        (.disable .flag)
  | .flag => w.go t { w.server with disableS2iQueries := true } .idle

def stepEnable (w : World T) (t : T) : TogglePoint → World T
  | .check =>
      if w.server.disableS2iQueries then w.go t w.server (.enable .memory)
      else w.go t w.server .idle
  | .memory =>
    match loadInMemory (newIterator w.server.diskStorage) (fun _ => {}) w.server.memoryStorage with
    | (storage, .ok _) => w.go t { w.server with memoryStorage := storage } (.enable .flag)
    | (storage, .error _) => w.go t { w.server with memoryStorage := storage } .idle
  | .flag => w.go t { w.server with disableS2iQueries := false } .idle

def start : Call → Thread
  | .query request => .query request .called
  | .disableS2i => .disable .check
  | .enableS2i => .enable .check

def step (w : World T) : Action T → Option (Option (Query × Outcome) × World T)
  | .call t c =>
    match w.threads t with
    | .idle => some (none, w.go t w.server (start c))
    | _ => none
  | .step t =>
    match w.threads t with
    | .idle => none
    | .query request stage => w.stepQuery t request stage
    | .disable point => some (none, w.stepDisable t point)
    | .enable point => some (none, w.stepEnable t point)

/-- A process that has just begun to serve. -/
def serving (s : Server) : World T := ⟨s, none, fun _ => .idle⟩

end World

/-! ### What is known -/

namespace Thread

/-- The thread is between taking and releasing the mutex. -/
def Holds : Thread → Prop
  | .query _ .locked | .query _ (.numbering _ _ _) | .query _ (.finished _) => True
  | _ => False

/-- The batch that the thread has collected and not yet written. -/
def pending : Thread → List KVPair
  | .query _ (.numbering _ kvPairs _) => kvPairs
  | _ => []

end Thread

/-- The memory has the C string that a STR2ID loop looks up next, if the store or the
    pending batch has it. -/
def Thread.Remembers (s : Server) : Thread → Prop
  | .query _ (.numbering (str :: _) kvPairs _) =>
      ((∃ p ∈ s.diskStorage.toList, cstr p.2 = cstr str) ∨
        ∃ p ∈ kvPairs, cstr p.value = cstr str) → cstr str ∈ s.memoryStorage
  | _ => True

instance (s : Server) : (thread : Thread) → Decidable (thread.Remembers s)
  | .query _ (.numbering (str :: _) kvPairs _) =>
      inferInstanceAs (Decidable (((∃ p ∈ s.diskStorage.toList, cstr p.2 = cstr str) ∨
        ∃ p ∈ kvPairs, cstr p.value = cstr str) → cstr str ∈ s.memoryStorage))
  | .query _ (.numbering [] _ _) | .query _ .called | .query _ .locked
  | .query _ (.finished _) | .query _ (.returned _) | .idle | .disable _ | .enable _ =>
      isTrue trivial

/-- The store holds a string with the C string of `p.1` under the id `p.2`. -/
def Carried (db : Store) (p : Bytes × NumID) : Prop :=
  ∃ v, db[p.2]? = some v ∧ cstr v = cstr p.1

theorem Carried.mono {db db' : Store} (h : Extends db db') {p : Bytes × NumID}
    (hp : Carried db p) : Carried db' p := by
  obtain ⟨v, hv, hcstr⟩ := hp
  exact ⟨v, h p.2 v hv, hcstr⟩

/-- What a thread has answered so far is in the store. -/
def Thread.Sound (db : Store) : Thread → Prop
  | .query request (.numbering todo _ ids) =>
      request.op = .STR2ID ∧ ∃ done, done ++ todo = request.strings ∧
        ids.length = done.length ∧ ∀ p ∈ done.zip ids, Carried db p
  | .query request (.finished (.ok response)) =>
      ∀ p ∈ answered (.query request) (.response response), Carried db p
  | _ => True

theorem Thread.Sound.mono {db db' : Store} (h : Extends db db') {thread : Thread}
    (hthread : thread.Sound db) : thread.Sound db' := by
  unfold Thread.Sound at hthread ⊢
  split
  · obtain ⟨hop, done, hsplit, hlength, hids⟩ := hthread
    exact ⟨hop, done, hsplit, hlength, fun p hp => (hids p hp).mono h⟩
  · exact fun p hp => (hthread p hp).mono h
  · trivial

/-- The answer grows by one known pair. -/
theorem Thread.Sound.answer {db : Store} {request : Query} {str : Bytes} {todo : List Bytes}
    {kvPairs kvPairs' : List KVPair} {ids : List NumID} {id : NumID}
    (h : (Thread.query request (.numbering (str :: todo) kvPairs ids)).Sound db)
    (hid : Carried db (str, id)) :
    (Thread.query request (.numbering todo kvPairs' (ids ++ [id]))).Sound db := by
  obtain ⟨hop, done, hsplit, hlength, hids⟩ := h
  refine ⟨hop, done ++ [str], by simpa using hsplit, by simp [hlength], ?_⟩
  rw [List.zip_append hlength.symm]
  intro p hp
  rcases List.mem_append.mp hp with hp | hp
  · exact hids p hp
  · rw [List.mem_singleton.mp hp]
    exact hid

theorem prefixDistinct_insert {db : Store} {c : NumID} {s : Bytes} (h : PrefixDistinct db)
    (hnew : ∀ (id : NumID) (v : Bytes), db[id]? = some v → cstr v ≠ cstr s) :
    PrefixDistinct (db.insert c s) := by
  have hold : ∀ {id : NumID} {v : Bytes}, (db.insert c s)[id]? = some v →
      (id = c ∧ v = s) ∨ db[id]? = some v := by
    intro id v hv
    by_cases hid : c = id
    · rw [hid, ExtTreeMap.getElem?_insert_self] at hv
      exact Or.inl ⟨hid.symm, (Option.some.inj hv).symm⟩
    · rw [getElem?_insert_of_ne _ hid] at hv
      exact Or.inr hv
  intro id id' v v' hv hv' hcstr
  rcases hold hv with ⟨rfl, rfl⟩ | hdb <;> rcases hold hv' with ⟨rfl, rfl⟩ | hdb'
  · rfl
  · exact absurd hcstr.symm (hnew id' v' hdb')
  · exact absurd hcstr (hnew id v hdb)
  · exact h id id' v v' hdb hdb' hcstr

namespace World

variable {T : Type} {w : World T} {t : T}

/-- The batch that the holder of the mutex has not yet written. -/
def pending (w : World T) : List KVPair :=
  match w.mutex with
  | none => []
  | some t => (w.threads t).pending

/-- The store with the pending batch in it. -/
def known (w : World T) : Store := putBatch w.server.diskStorage w.pending

/-- When the action is a `find` of a string whose C string is already stored or pending, the
    memory has that C string. -/
def Remembers (w : World T) : Action T → Prop
  | .step t => (w.threads t).Remembers w.server
  | .call _ _ => True

instance (w : World T) (a : Action T) : Decidable (w.Remembers a) :=
  match a with
  | .step t => inferInstanceAs (Decidable ((w.threads t).Remembers w.server))
  | .call _ _ => isTrue trivial

/-- The ids that are stored or pending number their C strings one to one, memory says
    nothing else, and the counter is above them. -/
structure Safe (w : World T) : Prop where
  holder : ∀ t, (w.threads t).Holds → w.mutex = some t
  keys : (w.pending.map KVPair.key).Nodup
  free : ∀ p ∈ w.pending, w.server.diskStorage[p.key]? = none
  below : ∀ id ∈ w.known, id.toInt < w.server.cnt.toInt
  distinct : PrefixDistinct w.known
  memory : ∀ (s : Bytes) (id : NumID), w.server.memoryStorage[cstr s]? = some id →
    Carried w.known (s, id)
  threads : ∀ t, (w.threads t).Sound w.known

theorem pending_of_holder (h : w.mutex = some t) : w.pending = (w.threads t).pending := by
  rw [pending, h]

/-- What a step returns to its client. -/
def replied : Option (Query × Outcome) → List (Bytes × NumID)
  | some (request, o) => answered (.query request) o
  | none => []

/-- What every step keeps, and what it may return. -/
structure Kept (w : World T) (o : Option (Query × Outcome)) (w' : World T) : Prop where
  safe : w'.Safe
  grows : Extends w.known w'.known
  replied : ∀ p ∈ replied o, Carried w'.known p

theorem Kept.of_same {w' : World T} {o : Option (Query × Outcome)}
    (h : w'.Safe ∧ w'.known = w.known) (ho : ∀ p ∈ World.replied o, Carried w.known p) :
    w.Kept o w' := by
  obtain ⟨hsafe, hknown⟩ := h
  refine ⟨hsafe, ?_, ?_⟩ <;> rw [hknown]
  · exact Extends.refl _
  · exact ho

theorem Safe.carried_of_stored (h : w.Safe) {id : NumID} {v : Bytes}
    (hv : w.server.diskStorage[id]? = some v) : w.known[id]? = some v :=
  extends_putBatch h.free id v hv

theorem Safe.known_of_pending (h : w.Safe) {p : KVPair} (hp : p ∈ w.pending) :
    w.known[p.key]? = some p.value :=
  (mem_putBatch h.keys).mpr (Or.inl ⟨p, hp, rfl, rfl⟩)

theorem Safe.counter_unused (h : w.Safe) : w.known[w.server.cnt]? = none := by
  apply ExtTreeMap.getElem?_eq_none
  intro hmem
  exact absurd (h.below _ hmem) (lt_irrefl _)

theorem Safe.counter_not_pending (h : w.Safe) : w.server.cnt ∉ w.pending.map KVPair.key := by
  intro hmem
  obtain ⟨p, hp, hkey⟩ := List.mem_map.mp hmem
  have hstored := h.known_of_pending hp
  rw [hkey, h.counter_unused] at hstored
  cases hstored

theorem Safe.counter_not_stored (h : w.Safe) : w.server.diskStorage[w.server.cnt]? = none := by
  rcases hstored : w.server.diskStorage[w.server.cnt]? with _ | v
  · rfl
  · have hknown := h.carried_of_stored hstored
    rw [h.counter_unused] at hknown
    cases hknown

/-- Loading adds only entries of the store to the memory. -/
theorem Safe.load (h : w.Safe) (s : Bytes) (id : NumID)
    (hs : (insertAll w.server.memoryStorage w.server.diskStorage.toList)[cstr s]? = some id) :
    Carried w.known (s, id) := by
  rcases getElem?_putAll_cases hs with ⟨⟨id', v⟩, hv, hcstr, rfl⟩ | hs
  · exact ⟨v, h.carried_of_stored (ExtTreeMap.mem_toList_iff_getElem?_eq_some.mp hv), hcstr⟩
  · exact h.memory s id hs

variable [DecidableEq T]

theorem pending_go {s : Server} {thread : Thread} (h : thread.pending = (w.threads t).pending) :
    (w.go t s thread).pending = w.pending := by
  unfold pending go
  rcases w.mutex with _ | t'
  · rfl
  · by_cases ht : t' = t
    · subst ht
      simpa using h
    · simp [ht]

/-- A step that neither allocates nor writes. -/
theorem Safe.move (h : w.Safe) {w' : World T} (t : T) (thread : Thread)
    (hstore : w'.server.diskStorage = w.server.diskStorage)
    (hcnt : w'.server.cnt = w.server.cnt)
    (hmemory : ∀ (s : Bytes) (id : NumID), w'.server.memoryStorage[cstr s]? = some id →
      Carried w.known (s, id))
    (hthreads : w'.threads = Function.update w.threads t thread)
    (hholder : ∀ t', (w'.threads t').Holds → w'.mutex = some t')
    (hpending : w'.pending = w.pending) (hthread : thread.Sound w.known) :
    w'.Safe ∧ w'.known = w.known := by
  have hknown : w'.known = w.known := by rw [known, known, hstore, hpending]
  refine ⟨⟨hholder, ?_, ?_, ?_, ?_, ?_, ?_⟩, hknown⟩
  · rw [hpending]
    exact h.keys
  · rw [hpending, hstore]
    exact h.free
  · rw [hknown, hcnt]
    exact h.below
  · rw [hknown]
    exact h.distinct
  · rw [hknown]
    exact hmemory
  · intro t'
    rw [hknown, hthreads]
    by_cases ht : t' = t
    · subst ht
      simpa using hthread
    · simpa [ht] using h.threads t'

/-- A step that keeps the mutex and changes at most memory and flag. -/
theorem Safe.go (h : w.Safe) {s : Server} {thread : Thread}
    (hstore : s.diskStorage = w.server.diskStorage) (hcnt : s.cnt = w.server.cnt)
    (hmemory : ∀ (x : Bytes) (id : NumID), s.memoryStorage[cstr x]? = some id →
      Carried w.known (x, id))
    (hholds : thread.Holds → (w.threads t).Holds)
    (hpending : thread.pending = (w.threads t).pending) (hthread : thread.Sound w.known) :
    (w.go t s thread).Safe ∧ (w.go t s thread).known = w.known := by
  refine h.move t thread hstore hcnt hmemory rfl ?_ (pending_go hpending) hthread
  intro t' ht'
  by_cases ht : t' = t
  · subst ht
    exact h.holder t' (hholds (by simpa [World.go] using ht'))
  · exact h.holder t' (by simpa [World.go, ht] using ht')

/-- A step of a thread that is not in a STR2ID loop, before and after it. -/
theorem Safe.quiet (h : w.Safe) {s : Server} {thread : Thread}
    (ht : (w.threads t).pending = []) (hpending : thread.pending = []) (hholds : ¬ thread.Holds)
    (hthread : thread.Sound w.known) (hstore : s.diskStorage = w.server.diskStorage)
    (hcnt : s.cnt = w.server.cnt)
    (hmemory : ∀ (x : Bytes) (id : NumID), s.memoryStorage[cstr x]? = some id →
      Carried w.known (x, id)) : w.Kept none (w.go t s thread) := by
  refine .of_same (h.go hstore hcnt hmemory (fun hh => absurd hh hholds) ?_ hthread) ?_
  · rw [hpending, ht]
  · simp [World.replied]

theorem Safe.call (h : w.Safe) (ht : w.threads t = .idle) (c : Call) :
    w.Kept none (w.go t w.server (start c)) := by
  have hpending : (w.threads t).pending = [] := by
    rw [ht]
    rfl
  cases c <;> exact h.quiet hpending rfl id trivial rfl rfl h.memory

theorem Safe.disable (h : w.Safe) {point : TogglePoint} (ht : w.threads t = .disable point) :
    w.Kept none (w.stepDisable t point) := by
  have hpending : (w.threads t).pending = [] := by
    rw [ht]
    rfl
  cases point with
  | check =>
    simp only [stepDisable]
    split <;> exact h.quiet hpending rfl id trivial rfl rfl h.memory
  | memory =>
    refine h.quiet hpending rfl id trivial rfl rfl ?_
    intro x id hx
    simp [MemoryStorage.unload] at hx
  | flag => exact h.quiet hpending rfl id trivial rfl rfl h.memory

theorem Safe.enable (h : w.Safe) {point : TogglePoint} (ht : w.threads t = .enable point) :
    w.Kept none (w.stepEnable t point) := by
  have hpending : (w.threads t).pending = [] := by
    rw [ht]
    rfl
  cases point with
  | check =>
    simp only [stepEnable]
    split <;> exact h.quiet hpending rfl id trivial rfl rfl h.memory
  | memory =>
    simp only [stepEnable, loadInMemory_newIterator]
    exact h.quiet hpending rfl id trivial rfl rfl h.load
  | flag => exact h.quiet hpending rfl id trivial rfl rfl h.memory

/-! ### The steps of a query -/

section Query

variable {request : Query} {stage : Stage} {o : Option (Query × Outcome)} {w' : World T}

theorem Safe.acquire (h : w.Safe)
    (hstep : w.stepQuery t request .called = some (o, w')) : w.Kept o w' := by
  rcases hmutex : w.mutex with _ | t'
  · simp only [stepQuery, hmutex, Option.some.injEq, Prod.mk.injEq] at hstep
    obtain ⟨rfl, rfl⟩ := hstep
    refine .of_same (h.move t (.query request .locked) rfl rfl h.memory rfl
      ?_ ?_ trivial) (by simp [World.replied])
    · intro t' ht'
      by_cases htt : t' = t
      · rw [htt]
      · have hheld : (w.threads t').Holds := by simpa [World.go, htt] using ht'
        have hother := h.holder t' hheld
        rw [hmutex] at hother
        cases hother
    · simp [pending, World.go, hmutex, Thread.pending]
  · simp [stepQuery, hmutex] at hstep

theorem Safe.release (h : w.Safe) {result : Except Fault Query}
    (ht : w.threads t = .query request (.finished result))
    (hstep : w.stepQuery t request (.finished result) = some (o, w')) : w.Kept o w' := by
  have hheld : w.mutex = some t := h.holder t (by rw [ht]; trivial)
  -- the mutex becomes free, and with it nothing is pending any more
  have hfreed : ∀ o, (∀ p ∈ World.replied o, Carried w.known p) →
      w.Kept o { w.go t w.server .idle with mutex := none } := by
    intro o ho
    refine .of_same (h.move t .idle rfl rfl h.memory rfl ?_ ?_ trivial) ho
    · intro t' ht'
      by_cases htt : t' = t
      · simp [World.go, htt, Thread.Holds] at ht'
      · have hother := h.holder t' (by simpa [World.go, htt] using ht')
        rw [hheld] at hother
        exact absurd (Option.some.inj hother).symm htt
    · simp [pending, hheld, ht, Thread.pending]
  have hsound := h.threads t
  rw [ht] at hsound
  rcases result with (e | e | u) | response
  · cases hstep
  · cases hstep
    exact hfreed _ (by simp [World.replied, answered])
  · cases hstep
  · cases hstep
    exact hfreed _ hsound

/-- The lookup, or the check of the flag. -/
theorem Safe.dispatch (h : w.Safe) (ht : w.threads t = .query request .locked)
    (hstep : w.stepQuery t request .locked = some (o, w')) : w.Kept o w' := by
  have hgo : ∀ thread : Thread, thread.pending = [] → thread.Sound w.known →
      w.Kept none (w.go t w.server thread) := by
    intro thread hpending hthread
    refine .of_same (h.go rfl rfl h.memory (fun _ => ?_) ?_ hthread) (by simp [World.replied])
    · rw [ht]
      trivial
    · rw [hpending, ht]
      rfl
  simp only [stepQuery, Server.stepQuery] at hstep
  rcases hop : request.op with _ | _ | code
  · by_cases hdisabled : w.server.disableS2iQueries = true
    · simp only [hop, hdisabled, if_true, Option.some.injEq, Prod.mk.injEq] at hstep
      obtain ⟨rfl, rfl⟩ := hstep
      exact hgo _ rfl trivial
    · simp only [hop, hdisabled, if_false, Option.some.injEq, Prod.mk.injEq,
        Bool.false_eq_true] at hstep
      obtain ⟨rfl, rfl⟩ := hstep
      exact hgo _ rfl ⟨hop, [], rfl, rfl, by simp⟩
  · simp only [hop, lookup_eq, Option.some.injEq, Prod.mk.injEq] at hstep
    obtain ⟨rfl, rfl⟩ := hstep
    exact hgo _ rfl (by simp [Thread.Sound, answered, hop])
  · simp only [hop, Option.some.injEq, Prod.mk.injEq] at hstep
    obtain ⟨rfl, rfl⟩ := hstep
    exact hgo _ rfl (by simp [Thread.Sound, answered, hop])

/-- After the write the pending batch is stored, so what is known is the same. -/
theorem Safe.write (h : w.Safe) {kvPairs : List KVPair} {ids : List NumID}
    (ht : w.threads t = .query request (.numbering [] kvPairs ids))
    (hstep : w.stepQuery t request (.numbering [] kvPairs ids) = some (o, w')) :
    w.Kept o w' := by
  simp only [stepQuery, Server.stepQuery, DiskStorage.write, Option.some.injEq,
    Prod.mk.injEq] at hstep
  obtain ⟨rfl, rfl⟩ := hstep
  have hheld : w.mutex = some t := h.holder t (by rw [ht]; trivial)
  have hpending : w.pending = kvPairs := by
    rw [pending_of_holder hheld, ht]
    rfl
  have hknown : w.known = putBatch w.server.diskStorage kvPairs := by rw [known, hpending]
  have hsound := h.threads t
  rw [ht] at hsound
  obtain ⟨hop, done, hsplit, hlength, hids⟩ := hsound
  rw [List.append_nil] at hsplit
  subst hsplit
  set w' := w.go t { w.server with diskStorage := putBatch w.server.diskStorage kvPairs }
    (.query request (.finished (.ok { op := request.op, ids := ids }))) with hw'
  have hpending' : w'.pending = [] := by
    simp [pending, hw', World.go, hheld, Thread.pending]
  have hknown' : w'.known = w.known := by
    rw [known, hpending', hknown]
    rfl
  refine .of_same ⟨⟨?_, ?_, ?_, ?_, ?_, ?_, ?_⟩, hknown'⟩ (by simp [World.replied])
  · intro t' ht'
    by_cases htt : t' = t
    · rw [htt]
      exact hheld
    · exact h.holder t' (by simpa [hw', World.go, htt] using ht')
  · simp [hpending']
  · simp [hpending']
  · rw [hknown']
    exact h.below
  · rw [hknown']
    exact h.distinct
  · rw [hknown']
    exact h.memory
  · intro t'
    rw [hknown']
    by_cases htt : t' = t
    · subst htt
      simpa [hw', World.go, Thread.Sound, answered, hop] using hids
    · simpa [hw', World.go, htt] using h.threads t'

/-- A string that nobody knows becomes pending under the counter. -/
theorem Safe.allocate (h : w.Safe) (hheld : w.mutex = some t) {str : Bytes} {next : NumID}
    (hnext : next.toInt = w.server.cnt.toInt + 1)
    (hunknown : ∀ (id : NumID) (v : Bytes), w.known[id]? = some v → cstr v ≠ cstr str)
    {thread : Thread} (hpending : thread.pending = w.pending ++ [⟨w.server.cnt, str⟩])
    (hthread : thread.Sound (w.known.insert w.server.cnt str)) :
    w.Kept none (w.go t
      { w.server with
        memoryStorage := ExtTreeMap.insert w.server.memoryStorage (cstr str) w.server.cnt
        cnt := next } thread) := by
  set s : Server :=
    { w.server with
      memoryStorage := ExtTreeMap.insert w.server.memoryStorage (cstr str) w.server.cnt
      cnt := next }
  have hpending' : (w.go t s thread).pending = w.pending ++ [⟨w.server.cnt, str⟩] := by
    rw [pending_of_holder (show (w.go t s thread).mutex = some t from hheld)]
    simpa [World.go] using hpending
  have hknown : (w.go t s thread).known = w.known.insert w.server.cnt str := by
    rw [known, hpending', putBatch, putAll_concat]
    rfl
  have hgrows : Extends w.known (w.go t s thread).known := by
    rw [hknown]
    exact extends_insert str h.counter_unused
  refine ⟨⟨?_, ?_, ?_, ?_, ?_, ?_, ?_⟩, hgrows, by simp [World.replied]⟩
  · intro t' ht'
    by_cases htt : t' = t
    · rw [htt]
      exact hheld
    · exact h.holder t' (by simpa [World.go, htt] using ht')
  · rw [hpending', List.map_append, List.nodup_append]
    refine ⟨h.keys, by simp, ?_⟩
    rintro id hid id' hid' rfl
    rw [List.mem_singleton.mp hid'] at hid
    exact h.counter_not_pending hid
  · rw [hpending']
    intro p hp
    rcases List.mem_append.mp hp with hp | hp
    · exact h.free p hp
    · rw [List.mem_singleton.mp hp]
      exact h.counter_not_stored
  · rw [hknown]
    intro id hid
    change id.toInt < next.toInt
    rcases ExtTreeMap.mem_insert.mp hid with hid | hid
    · rw [← Std.LawfulEqCmp.eq_of_compare hid]
      omega
    · have hlt := h.below id hid
      omega
  · rw [hknown]
    exact prefixDistinct_insert h.distinct hunknown
  · intro x id (hx : (ExtTreeMap.insert w.server.memoryStorage (cstr str) w.server.cnt)[cstr x]? =
      some id)
    by_cases hsame : cstr str = cstr x
    · rw [← hsame, ExtTreeMap.getElem?_insert_self] at hx
      cases hx
      exact ⟨str, by rw [hknown, ExtTreeMap.getElem?_insert_self], hsame⟩
    · rw [getElem?_insert_of_ne _ hsame] at hx
      exact (h.memory x id hx).mono hgrows
  · intro t'
    by_cases htt : t' = t
    · subst htt
      rw [hknown]
      simpa [World.go] using hthread
    · have hsound := (h.threads t').mono hgrows
      simpa [World.go, htt] using hsound

/-- A `find` of a string that memory knows if anyone does. -/
theorem Safe.find (h : w.Safe) {str : Bytes} {todo : List Bytes} {kvPairs : List KVPair}
    {ids : List NumID} (ht : w.threads t = .query request (.numbering (str :: todo) kvPairs ids))
    (hremembers : w.Remembers (.step t))
    (hstep : w.stepQuery t request (.numbering (str :: todo) kvPairs ids) = some (o, w')) :
    w.Kept o w' := by
  have hheld : w.mutex = some t := h.holder t (by rw [ht]; trivial)
  have hpending : w.pending = kvPairs := by
    rw [pending_of_holder hheld, ht]
    rfl
  have hsound : (Thread.query request (.numbering (str :: todo) kvPairs ids)).Sound w.known := by
    rw [← ht]
    exact h.threads t
  simp only [stepQuery, Server.stepQuery, Server.round] at hstep
  rcases hfind : MemoryStorage.find {} w.server.memoryStorage str w.server.cnt with f | r
  · obtain ⟨-, -, rfl⟩ := MemoryStorage.find_error hfind
    simp [hfind] at hstep
  · simp only [hfind, Option.some.injEq, Prod.mk.injEq] at hstep
    obtain ⟨rfl, rfl⟩ := hstep
    rcases MemoryStorage.find_cases hfind with
      ⟨hknown, hdata, hcounter, hins⟩ | ⟨hnew, hdata, hcounter, hins, hid⟩
    · simp only [hdata, hcounter, hins, Bool.false_eq_true, if_false]
      refine .of_same (h.go rfl rfl h.memory (fun _ => ?_) ?_
        (hsound.answer (h.memory str r.id hknown))) (by simp [World.replied])
      · rw [ht]
        trivial
      · rw [ht]
        rfl
    · simp only [hdata, hins, if_true, hid]
      -- nobody knows the string, for otherwise memory would have it
      have hunknown : ∀ (id : NumID) (v : Bytes), w.known[id]? = some v →
          cstr v ≠ cstr str := by
        intro id v hv hcstr
        have hmem : cstr str ∈ w.server.memoryStorage := by
          simp only [Remembers, ht, Thread.Remembers] at hremembers
          apply hremembers
          rcases (mem_putBatch h.keys).mp hv with ⟨p, hp, -, rfl⟩ | ⟨-, hv⟩
          · rw [hpending] at hp
            exact Or.inr ⟨p, hp, hcstr⟩
          · exact Or.inl ⟨(id, v), ExtTreeMap.mem_toList_iff_getElem?_eq_some.mpr hv, hcstr⟩
        rw [ExtTreeMap.mem_iff_isSome_getElem?, hnew] at hmem
        cases hmem
      refine h.allocate hheld hcounter hunknown ?_ ?_
      · rw [hpending]
        rfl
      · refine (hsound.mono ?_).answer ⟨str, ExtTreeMap.getElem?_insert_self, rfl⟩
        intro id v hv
        rw [getElem?_insert_of_ne]
        · exact hv
        · rintro rfl
          rw [h.counter_unused] at hv
          cases hv

end Query

theorem Safe.step {w' : World T} {o : Option (Query × Outcome)} {a : Action T} (h : w.Safe)
    (hremembers : w.Remembers a) (hstep : w.step a = some (o, w')) :
    w.Kept o w' := by
  cases a with
  | call t c =>
    rcases ht : w.threads t with _ | ⟨request, stage⟩ | point | point
    · simp only [World.step, ht, Option.some.injEq, Prod.mk.injEq] at hstep
      obtain ⟨rfl, rfl⟩ := hstep
      exact h.call ht c
    all_goals simp [World.step, ht] at hstep
  | step t =>
    rcases ht : w.threads t with _ | ⟨request, stage⟩ | point | point
    · simp [World.step, ht] at hstep
    · simp only [World.step, ht] at hstep
      rcases stage with _ | _ | ⟨_ | ⟨str, todo⟩, kvPairs, ids⟩ | result | result
      · exact h.acquire hstep
      · exact h.dispatch ht hstep
      · exact h.write ht hstep
      · exact h.find ht hremembers hstep
      · exact h.release ht hstep
      · cases hstep
    · simp only [World.step, ht, Option.some.injEq, Prod.mk.injEq] at hstep
      obtain ⟨rfl, rfl⟩ := hstep
      exact h.disable ht
    · simp only [World.step, ht, Option.some.injEq, Prod.mk.injEq] at hstep
      obtain ⟨rfl, rfl⟩ := hstep
      exact h.enable ht

omit [DecidableEq T] in
theorem safe_serving {s : Server} (hstore : s.diskStorage = ∅) (hmemory : s.memoryStorage = ∅) :
    (serving s : World T).Safe where
  holder := fun _ h => h.elim
  keys := List.nodup_nil
  free := by simp [pending, serving]
  below := by simp [known, pending, serving, hstore, putBatch, putAll]
  distinct := by
    rw [known, show (serving s : World T).server.diskStorage = ∅ from hstore]
    exact prefixDistinct_empty
  memory := by simp [serving, hmemory]
  threads := fun _ => trivial

/-! ### Runs -/

/-- No two responses give different ids to a string, and the store never holds a string
    under two ids. -/
structure NoDuplicates
    (tr : List (Machine.Record (World T) (Action T) (Option (Query × Outcome)))) : Prop where
  answers : ∀ r ∈ tr, ∀ r' ∈ tr, ∀ p ∈ replied r.output, ∀ p' ∈ replied r'.output,
    p.1 = p'.1 → p.2 = p'.2
  store : ∀ r ∈ tr, ∀ (id id' : NumID) (v : Bytes), r.after.server.diskStorage[id]? = some v →
    r.after.server.diskStorage[id']? = some v → id = id'

/-- Every interleaving in which memory is never behind at a `find` is free of duplicates. -/
theorem noDuplicates_of_remembers (s : Server)
    (hs : Node.step (.stopped ∅) (.start false) = some (.done, .running s))
    (actions : List (Action T))
    (tr : List (Machine.Record (World T) (Action T) (Option (Query × Outcome)))) (w : World T)
    (h : Machine.run World.step (serving s) actions = some (tr, w))
    (hremembers : ∀ r ∈ tr, r.before.Remembers r.event) : NoDuplicates tr := by
  have hempty : s.diskStorage = ∅ ∧ s.memoryStorage = ∅ := by
    cases Node.transition_of_step hs with
    | startLoaded db cnt hcnt => exact ⟨rfl, rfl⟩
  have hsafe := safe_serving (T := T) hempty.1 hempty.2
  have hkept : ∀ r : Machine.Record (World T) (Action T) (Option (Query × Outcome)),
      Machine.IsStep World.step r → r.before.Remembers r.event → r.before.Safe →
        r.before.Kept r.output r.after :=
    fun _ hr hC hbefore => hbefore.step hC hr
  -- whatever was returned once is known at the end
  obtain ⟨-, hreturned⟩ := Machine.run_pairwise (fun r => r.before.Remembers r.event) Safe
    (fun r w => ∀ p ∈ replied r.output, Carried w.known p) (fun _ _ => True)
    (fun r hr hC hbefore => (hkept r hr hC hbefore).safe)
    (fun r hr hC hbefore => (hkept r hr hC hbefore).replied)
    (fun _ r hr hC hbefore hpast p hp => (hpast p hp).mono (hkept r hr hC hbefore).grows)
    (fun _ _ _ _ _ _ => trivial) h hremembers hsafe
  obtain ⟨hend, hsteps⟩ := Machine.run_invariant _ Safe
    (fun r hr hC hbefore => (hkept r hr hC hbefore).safe) h hremembers hsafe
  constructor
  · intro r hr r' hr' p hp p' hp' hsame
    obtain ⟨v, hv, hcstr⟩ := hreturned r hr p hp
    obtain ⟨v', hv', hcstr'⟩ := hreturned r' hr' p' hp'
    rw [← hsame, ← hcstr] at hcstr'
    exact hend.distinct p.2 p'.2 v v' hv hv' hcstr'.symm
  · intro r hr id id' v hv hv'
    have hafter := (hsteps r hr).2
    exact hafter.distinct id id' v v (hafter.carried_of_stored hv) (hafter.carried_of_stored hv')
      rfl

/-- A disabling thread unloads the memory after the last `find` of a query. -/
def lateUnload : List (Action Nat) :=
  [.call 0 (.query { op := .STR2ID, strings := [[97], [98], [97]] }), .call 1 .disableS2i,
    .step 0, .step 0, .step 1, .step 0, .step 0, .step 0, .step 1, .step 0, .step 1, .step 0]

theorem noDuplicates_lateUnload :
    ∃ tr w, Machine.run World.step (serving ⟨∅, ∅, 1, false⟩) lateUnload = some (tr, w) ∧
      NoDuplicates tr := by
  have hrun : (Machine.run World.step (serving ⟨∅, ∅, 1, false⟩) lateUnload).map
      (fun p => decide (∀ r ∈ p.1, r.before.Remembers r.event)) = some true := by
    decide
  obtain ⟨⟨tr, w⟩, h, hremembers⟩ := Option.map_eq_some_iff.mp hrun
  exact ⟨tr, w, h, noDuplicates_of_remembers _ (by decide) lateUnload tr w h
    (of_decide_eq_true hremembers)⟩

/-- A disabling thread unloads the memory between two `find`s of a query. -/
def earlyUnload : List (Action Nat) :=
  [.call 0 (.query { op := .STR2ID, strings := [[97], [97]] }), .call 1 .disableS2i,
    .step 0, .step 0, .step 0, .step 1, .step 1, .step 0, .step 0, .step 0]

/-- One string is answered with two ids and stored under both. -/
theorem not_noDuplicates_earlyUnload :
    ∃ tr w, Machine.run World.step (serving ⟨∅, ∅, 1, false⟩) earlyUnload = some (tr, w) ∧
      (tr.map Machine.Record.output).getLast? = some (some
        ({ op := .STR2ID, strings := [[97], [97]] },
          .response { op := .STR2ID, ids := [1, 2] })) ∧
      w.server.diskStorage = ((∅ : Store).insert 1 [97]).insert 2 [97] ∧ ¬ NoDuplicates tr := by
  have hrun : (Machine.run World.step (serving ⟨∅, ∅, 1, false⟩) earlyUnload).map
      (fun p => ((p.1.map Machine.Record.output).getLast?, p.2.server.diskStorage)) =
        some (some (some ({ op := .STR2ID, strings := [[97], [97]] },
          .response { op := .STR2ID, ids := [1, 2] })),
          ((∅ : Store).insert 1 [97]).insert 2 [97]) := by
    decide
  obtain ⟨⟨tr, w⟩, h, hend⟩ := Option.map_eq_some_iff.mp hrun
  obtain ⟨hlast, hstore⟩ := Prod.mk.inj hend
  refine ⟨tr, w, h, hlast, hstore, ?_⟩
  rintro ⟨hanswers, -⟩
  obtain ⟨r, hr, houtput⟩ := List.mem_map.mp (List.mem_of_getLast? hlast)
  have hsame := hanswers r hr r hr ([97], 1) (by rw [houtput]; decide) ([97], 2)
    (by rw [houtput]; decide) rfl
  exact absurd hsame (by decide)

end World

end Numerator
