import Numerator.Interleaving
import Numerator.Simulation

/-!
# Concurrent calls one after another

Queries work under the mutex, so an interleaving of queries shows what their
serial execution in the order of the answers shows. The toggles take no mutex.
They fit into the same order as long as no other thread makes a step between the
steps of a toggle and no query holds the mutex while they are made.
-/

namespace Numerator

open Std FiniteMap DiskStorage

/-! ### The rest of a query -/

namespace Server

/-- How a query ends for the process and its client. -/
def conclude (s : Server) : Except Fault Query → Option (Outcome × Node)
  | .ok response => some (.response response, .running s)
  | .error (.numeratorException e) => some (.refused e, .running s)
  | .error (.exc _) => some (.exited, .stopped s.diskStorage)
  | .error (.undefined _) => none

theorem query_eq_conclude (replies : Replies) (s : Server) (request : Query) :
    Node.query replies s request =
      (s.queryImpl replies {} request).1.conclude (s.queryImpl replies {} request).2 := by
  unfold Node.query
  rcases s.queryImpl replies {} request with ⟨s', (e | e | u) | response⟩ <;> rfl

/-- What the remaining steps of a query come to if nobody interferes. Without failing
    libraries only an overflow ends the loop early. -/
def rest (request : Query) (s : Server) : Stage → Option (Outcome × Node)
  | .called | .locked => Node.query {} s request
  | .numbering todo kvPairs ids =>
    match rounds (fun _ => {}) 0 ⟨s.memoryStorage, s.cnt, kvPairs, ids⟩ todo with
    | .error _ => none
    | .ok l =>
        some (.response { op := request.op, ids := l.ids },
          .running { s with
            diskStorage := putBatch s.diskStorage l.kvPairs
            memoryStorage := l.memoryStorage
            cnt := l.cnt })
  | .finished result | .returned result => s.conclude result

variable {s s' : Server} {request : Query} {stage stage' : Stage}

theorem rest_locked (h : stepQuery {} request s .locked = some (s', stage')) :
    rest request s' stage' = Node.query {} s request := by
  rw [query_eq_conclude]
  simp only [stepQuery] at h
  unfold queryImpl
  rcases hop : request.op with _ | _ | code
  · by_cases hdisabled : s.disableS2iQueries = true
    · simp only [hop, hdisabled, if_true, Option.some.injEq, Prod.mk.injEq] at h
      obtain ⟨rfl, rfl⟩ := h
      simp only [rest, hdisabled, if_true]
    · rw [Bool.not_eq_true] at hdisabled
      simp only [hop, hdisabled, Bool.false_eq_true, if_false, Option.some.injEq,
        Prod.mk.injEq] at h
      obtain ⟨rfl, rfl⟩ := h
      simp only [rest, hdisabled, Bool.false_eq_true, if_false]
      rcases hrounds : rounds (fun _ => {}) 0 ⟨s.memoryStorage, s.cnt, [], []⟩
        request.strings with f | l
      · obtain ⟨rfl, -⟩ := rounds_error (numbered_nil _ _) hrounds
        rfl
      · simp only [write, conclude, hop]
  · simp only [hop, lookup_eq, Option.some.injEq, Prod.mk.injEq] at h
    obtain ⟨rfl, rfl⟩ := h
    simp only [rest, lookup_eq]
  · simp only [hop, Option.some.injEq, Prod.mk.injEq] at h
    obtain ⟨rfl, rfl⟩ := h
    simp only [rest]

theorem round_error {l : Loop} {str : Bytes} {f : Fault} (h : round {} l str = .error f) :
    f = .undefined .signedOverflow := by
  unfold round at h
  rcases hfind : MemoryStorage.find {} l.memoryStorage str l.cnt with f' | r
  · rw [hfind] at h
    cases h
    exact (MemoryStorage.find_error hfind).2.2
  · simp [hfind] at h

theorem rest_numbering {str : Bytes} {todo : List Bytes} {kvPairs : List KVPair}
    {ids : List NumID}
    (h : stepQuery {} request s (.numbering (str :: todo) kvPairs ids) = some (s', stage')) :
    rest request s' stage' = rest request s (.numbering (str :: todo) kvPairs ids) := by
  simp only [stepQuery] at h
  rcases hround : round {} ⟨s.memoryStorage, s.cnt, kvPairs, ids⟩ str with f | l
  · obtain rfl := round_error hround
    simp [hround] at h
  · rw [hround] at h
    cases h
    simp only [rest, rounds, hround]
    rw [rounds_index 1 0]

/-- A step leaves the outcome of the query where it was. -/
theorem rest_stepQuery (h : stepQuery {} request s stage = some (s', stage')) :
    rest request s' stage' = rest request s stage := by
  rcases stage with _ | _ | ⟨_ | ⟨str, todo⟩, kvPairs, ids⟩ | result | result
  · cases h
    rfl
  · exact rest_locked h
  · simp only [stepQuery, write, Option.some.injEq, Prod.mk.injEq] at h
    obtain ⟨rfl, rfl⟩ := h
    rfl
  · exact rest_numbering h
  · cases h
    rfl
  · cases h

end Server

/-! ### Who is inside -/

namespace Thread

/-- The thread is between two steps of a toggle. -/
def Toggling : Thread → Prop
  | .disable .memory | .disable .flag | .enable .memory | .enable .flag => True
  | _ => False

instance : DecidablePred Toggling
  | .disable .memory | .disable .flag | .enable .memory | .enable .flag => isTrue trivial
  | .disable .check | .enable .check | .query _ _ | .idle => isFalse id

/-- The thread serves a toggle. -/
def Toggles : Thread → Prop
  | .disable _ | .enable _ => True
  | _ => False

instance : DecidablePred Toggles
  | .disable _ | .enable _ => isTrue trivial
  | .query _ _ | .idle => isFalse id

theorem Toggling.toggles {thread : Thread} (h : thread.Toggling) : thread.Toggles := by
  cases thread with
  | idle | query _ _ => exact h
  | disable _ | enable _ => trivial

/-- The thread has begun something that it has not finished. -/
def Inside (thread : Thread) : Prop := thread.Holds ∨ thread.Toggling

theorem not_inside_idle : ¬ idle.Inside := not_or.mpr ⟨id, id⟩

/-- A call that has just arrived has done nothing yet. -/
theorem not_inside_start (c : Call) : ¬ (World.start c).Inside := by
  cases c <;> exact not_or.mpr ⟨id, id⟩

/-- What the call of the thread has made of process `s` so far. -/
def Midway (s s' : Server) : Thread → Prop
  | .query request stage => Server.rest request s' stage = Node.query {} s request
  | .disable .memory => s' = s ∧ s.disableS2iQueries = false
  | .disable .flag => s' = { s with memoryStorage := ∅ } ∧ s.disableS2iQueries = false
  | .enable .memory => s' = s ∧ s.disableS2iQueries = true
  | .enable .flag =>
      s' = { s with memoryStorage := insertAll s.memoryStorage s.diskStorage.toList } ∧
        s.disableS2iQueries = true
  | _ => False

end Thread

namespace World

variable {T : Type} {w w' : World T} {t : T} {s : Server}

/-- No other thread is in the middle of a toggle, and no query holds the mutex when the
    step belongs to a toggle itself. -/
def Undisturbed (w : World T) : Action T → Prop
  | .step t => (∀ t' ≠ t, ¬ (w.threads t').Toggling) ∧
      ((w.threads t).Toggles → w.mutex = none)
  | .call _ _ => True

instance [Fintype T] [DecidableEq T] (w : World T) (a : Action T) : Decidable (w.Undisturbed a) :=
  match a with
  | .step t => inferInstanceAs (Decidable ((∀ t' ≠ t, ¬ (w.threads t').Toggling) ∧
      ((w.threads t).Toggles → w.mutex = none)))
  | .call _ _ => isTrue trivial

/-- The calls that were answered so far lead to process `s`, and at most one thread has gone
    beyond it. -/
inductive Represents (s : Server) (w : World T) : Prop where
  | free (hmutex : w.mutex = none) (hserver : w.server = s)
      (houtside : ∀ t, ¬ (w.threads t).Inside)
  | busy (t : T) (hmutex : w.mutex = if (w.threads t).Toggling then none else some t)
      (hinside : (w.threads t).Inside) (hmidway : (w.threads t).Midway s w.server)
      (houtside : ∀ t' ≠ t, ¬ (w.threads t').Inside)

/-- The call that a step answers, and the answer: a query when it releases the mutex, a
    toggle when it sets the flag or finds it set. -/
def answeredCall (r : Machine.Record (World T) (Action T) (Option (Query × Outcome))) :
    Option (Event × Outcome) :=
  match r.output, r.event with
  | some (request, o), _ => some (.query request, o)
  | none, .call _ _ => none
  | none, .step t =>
    match r.before.threads t with
    | .disable .check =>
        if r.before.server.disableS2iQueries then some (.disableS2i, .done) else none
    | .enable .check =>
        if r.before.server.disableS2iQueries then none else some (.enableS2i, .done)
    | .disable .flag => some (.disableS2i, .done)
    | .enable .flag => some (.enableS2i, .done)
    | _ => none

namespace Represents

variable (h : Represents s w)
include h

/-- With the mutex free and no toggle under way nothing has gone beyond `s`. -/
theorem free_of (ht : ¬ (w.threads t).Inside) (hmutex : w.mutex = none)
    (hothers : ∀ t' ≠ t, ¬ (w.threads t').Toggling) :
    w.server = s ∧ ∀ t', ¬ (w.threads t').Inside := by
  cases h with
  | free _ hserver houtside => exact ⟨hserver, houtside⟩
  | busy t₀ hbusy hinside _ _ =>
    have hne : t₀ ≠ t := by
      rintro rfl
      exact ht hinside
    rw [if_neg (hothers t₀ hne), hmutex] at hbusy
    cases hbusy

/-- The thread that is inside is the only one. -/
theorem midway (ht : (w.threads t).Inside) :
    w.mutex = (if (w.threads t).Toggling then none else some t) ∧
      (w.threads t).Midway s w.server ∧ ∀ t' ≠ t, ¬ (w.threads t').Inside := by
  cases h with
  | free _ _ houtside => exact absurd ht (houtside t)
  | busy t₀ hmutex hinside hmidway houtside =>
    by_cases hne : t = t₀
    · subst hne
      exact ⟨hmutex, hmidway, houtside⟩
    · exact absurd ht (houtside t hne)

end Represents

section Steps

variable [DecidableEq T]

theorem outside_go (server : Server) {thread : Thread} (hthread : ¬ thread.Inside)
    (hothers : ∀ t' ≠ t, ¬ (w.threads t').Inside) :
    ∀ t', ¬ ((w.go t server thread).threads t').Inside := by
  intro t'
  by_cases ht : t' = t
  · subst ht
    simpa [go] using hthread
  · simpa [go, ht] using hothers t' ht

theorem go_of_mutex {server : Server} {thread : Thread} {mutex : Option T}
    (h : w.mutex = mutex) :
    w.go t server thread = { w.go t server thread with mutex := mutex } := by
  rw [← h]
  rfl

/-- A thread outside moves to another place outside. -/
theorem Represents.move (h : Represents s w) {thread : Thread} (ht : ¬ (w.threads t).Inside)
    (hthread : ¬ thread.Inside) : Represents s (w.go t w.server thread) := by
  cases h with
  | free hmutex hserver houtside =>
    exact .free hmutex hserver (outside_go _ hthread fun t' _ => houtside t')
  | busy t₀ hmutex hinside hmidway houtside =>
    have hne : t₀ ≠ t := by
      rintro rfl
      exact ht hinside
    have hsame : (w.go t w.server thread).threads t₀ = w.threads t₀ := by simp [go, hne]
    refine .busy t₀ ?_ ?_ ?_ ?_
    · rw [hsame]
      exact hmutex
    · rw [hsame]
      exact hinside
    · rw [hsame]
      exact hmidway
    · intro t' ht'
      by_cases htt : t' = t
      · subst htt
        simpa [go] using hthread
      · simpa [go, htt] using houtside t' ht'

/-- The thread that is inside comes, or stays, there. -/
theorem Represents.inside {server : Server} {thread : Thread} {mutex : Option T}
    (hmutex : mutex = if thread.Toggling then none else some t) (hinside : thread.Inside)
    (hmidway : thread.Midway s server) (hothers : ∀ t' ≠ t, ¬ (w.threads t').Inside) :
    Represents s { w.go t server thread with mutex := mutex } := by
  refine .busy t ?_ ?_ ?_ ?_
  · simpa [go] using hmutex
  · simpa [go] using hinside
  · simpa [go] using hmidway
  · intro t' ht'
    simpa [go, ht'] using hothers t' ht'

/-- The thread that was inside has finished. -/
theorem Represents.leave {thread : Thread} {server : Server} (hthread : ¬ thread.Inside)
    (hothers : ∀ t' ≠ t, ¬ (w.threads t').Inside) :
    Represents server { w.go t server thread with mutex := none } :=
  .free rfl rfl (outside_go server hthread hothers)

theorem stepQuery_of_between {request : Query} {stage : Stage} (hcalled : stage ≠ .called)
    (hfinished : ∀ result, stage ≠ .finished result) :
    w.stepQuery t request stage =
      (Server.stepQuery {} request w.server stage).map fun p =>
        (none, w.go t p.1 (.query request p.2)) := by
  rcases stage with _ | _ | ⟨_ | ⟨str, todo⟩, kvPairs, ids⟩ | result | result
  · exact absurd rfl hcalled
  all_goals first | exact absurd rfl (hfinished _) | skip
  all_goals
    simp only [stepQuery]
    rcases Server.stepQuery {} request w.server _ with _ | ⟨s, stage'⟩ <;> rfl

/-- A query that has the mutex keeps it until it is finished. -/
theorem holds_stepQuery {request : Query} {stage stage' : Stage} {server server' : Server}
    (h : Server.stepQuery {} request server stage = some (server', stage'))
    (ht : (Thread.query request stage).Holds) (hfinished : ∀ result, stage ≠ .finished result) :
    (Thread.query request stage').Holds := by
  rcases stage with _ | _ | ⟨_ | ⟨str, todo⟩, kvPairs, ids⟩ | result | result
  · exact ht.elim
  · simp only [Server.stepQuery] at h
    repeat' split at h
    all_goals
      cases h
      trivial
  · cases h
    trivial
  · simp only [Server.stepQuery] at h
    split at h
    · cases h
    all_goals
      cases h
      trivial
  · exact absurd rfl (hfinished result)
  · exact ht.elim

variable {a : Action T} {o : Option (Query × Outcome)}

/-- The node is the process that the answered calls lead to. -/
def Stands (n : Node) (w : World T) : Prop := ∃ s, n = .running s ∧ Represents s w

/-- A step of the machine of events, seen from a process. -/
def Shows (w' : World T) (s : Server) : Option (Event × Outcome) → Prop :=
  Machine.Answers Node.step Stands (.running s) w'

omit [DecidableEq T] in
theorem Represents.shows (h : Represents s w') : w'.Shows s none := ⟨s, rfl, h⟩

omit [DecidableEq T] in
theorem Represents.answers {s' : Server} {e : Event} {o : Outcome}
    (hstep : Node.step (.running s) e = some (o, .running s')) (h : Represents s' w') :
    w'.Shows s (some (e, o)) :=
  ⟨.running s', hstep, s', rfl, h⟩

section Query

variable {request : Query} {stage : Stage}

theorem Represents.acquire (h : Represents s w)
    (hothers : ∀ t' ≠ t, ¬ (w.threads t').Toggling) (ht : w.threads t = .query request .called)
    (hstep : w.stepQuery t request .called = some (o, w')) : o = none ∧ w'.Shows s none := by
  rcases hmutex : w.mutex with _ | t'
  · simp only [World.stepQuery, hmutex, Option.some.injEq, Prod.mk.injEq] at hstep
    obtain ⟨rfl, rfl⟩ := hstep
    have houtside : ¬ (w.threads t).Inside := by
      rw [ht]
      exact Thread.not_inside_start (.query request)
    obtain ⟨rfl, hall⟩ := h.free_of houtside hmutex hothers
    exact ⟨rfl, Represents.shows (.inside rfl (Or.inl trivial) rfl fun t' _ => hall t')⟩
  · simp [World.stepQuery, hmutex] at hstep

theorem Represents.between (h : Represents s w) (ht : w.threads t = .query request stage)
    (hholds : (w.threads t).Holds) (hfinished : ∀ result, stage ≠ .finished result)
    (hstep : w.stepQuery t request stage = some (o, w')) : o = none ∧ w'.Shows s none := by
  have hcalled : stage ≠ .called := by
    rintro rfl
    rw [ht] at hholds
    exact hholds
  obtain ⟨hmutex, hmidway, hothers⟩ := h.midway (Or.inl hholds)
  rw [ht] at hmutex hmidway hholds
  rw [stepQuery_of_between hcalled hfinished] at hstep
  obtain ⟨⟨server, stage'⟩, hserver, heq⟩ := Option.map_eq_some_iff.mp hstep
  obtain ⟨rfl, rfl⟩ := Prod.mk.inj heq
  refine ⟨rfl, Represents.shows ?_⟩
  have hheld : w.mutex = some t := hmutex
  rw [go_of_mutex hheld]
  refine .inside rfl (Or.inl (holds_stepQuery hserver hholds hfinished)) ?_ hothers
  exact (Server.rest_stepQuery hserver).trans hmidway

theorem Represents.release (h : Represents s w) {result : Except Fault Query}
    (ht : w.threads t = .query request (.finished result))
    (hstep : w.stepQuery t request (.finished result) = some (o, w')) :
    ∃ outcome, o = some (request, outcome) ∧ w'.Shows s (some (.query request, outcome)) := by
  have hholds : (w.threads t).Holds := by
    rw [ht]
    trivial
  obtain ⟨-, hmidway, hothers⟩ := h.midway (Or.inl hholds)
  rw [ht] at hmidway
  have hquery : Node.query {} s request = w.server.conclude result := Eq.symm hmidway
  rcases result with (e | e | u) | response
  · cases hstep
  · cases hstep
    exact ⟨_, rfl, Represents.answers hquery (.leave Thread.not_inside_idle hothers)⟩
  · cases hstep
  · cases hstep
    exact ⟨_, rfl, Represents.answers hquery (.leave Thread.not_inside_idle hothers)⟩

end Query

theorem Represents.disable (h : Represents s w) {point : TogglePoint}
    (hundisturbed : w.Undisturbed (.step t)) (ht : w.threads t = .disable point) :
    (w.stepDisable t point).Shows s
      (answeredCall ⟨w, .step t, none, w.stepDisable t point⟩) := by
  have hmutex : w.mutex = none := hundisturbed.2 (by rw [ht]; trivial)
  cases point with
  | check =>
    have houtside : ¬ (w.threads t).Inside := by
      rw [ht]
      exact Thread.not_inside_start .disableS2i
    obtain ⟨rfl, hall⟩ := h.free_of houtside hmutex hundisturbed.1
    by_cases hdisabled : w.server.disableS2iQueries = true
    · simp only [stepDisable, answeredCall, ht, hdisabled, if_true]
      refine Represents.answers ?_ (h.move houtside Thread.not_inside_idle)
      simp only [Node.step, Server.disableS2i, hdisabled, if_true]
    · rw [Bool.not_eq_true] at hdisabled
      simp only [stepDisable, answeredCall, ht, hdisabled, Bool.false_eq_true, if_false]
      rw [go_of_mutex hmutex]
      exact Represents.shows (.inside rfl (Or.inr trivial) ⟨rfl, hdisabled⟩ fun t' _ => hall t')
  | memory =>
    have hinside : (w.threads t).Inside := by
      rw [ht]
      exact Or.inr trivial
    obtain ⟨-, hmidway, hothers⟩ := h.midway hinside
    rw [ht] at hmidway
    obtain ⟨rfl, henabled⟩ := hmidway
    simp only [stepDisable, answeredCall, ht]
    rw [go_of_mutex hmutex]
    exact Represents.shows (.inside rfl (Or.inr trivial) ⟨rfl, henabled⟩ hothers)
  | flag =>
    have hinside : (w.threads t).Inside := by
      rw [ht]
      exact Or.inr trivial
    obtain ⟨-, hmidway, hothers⟩ := h.midway hinside
    rw [ht] at hmidway
    obtain ⟨hserver, henabled⟩ := hmidway
    simp only [stepDisable, answeredCall, ht]
    rw [go_of_mutex hmutex]
    refine Represents.answers ?_ (.leave Thread.not_inside_idle hothers)
    simp only [Node.step, Server.disableS2i, henabled, hserver, Bool.false_eq_true, if_false]
    rfl

theorem Represents.enable (h : Represents s w) {point : TogglePoint}
    (hundisturbed : w.Undisturbed (.step t)) (ht : w.threads t = .enable point) :
    (w.stepEnable t point).Shows s
      (answeredCall ⟨w, .step t, none, w.stepEnable t point⟩) := by
  have hmutex : w.mutex = none := hundisturbed.2 (by rw [ht]; trivial)
  cases point with
  | check =>
    have houtside : ¬ (w.threads t).Inside := by
      rw [ht]
      exact Thread.not_inside_start .enableS2i
    obtain ⟨rfl, hall⟩ := h.free_of houtside hmutex hundisturbed.1
    by_cases hdisabled : w.server.disableS2iQueries = true
    · simp only [stepEnable, answeredCall, ht, hdisabled, if_true]
      rw [go_of_mutex hmutex]
      exact Represents.shows (.inside rfl (Or.inr trivial) ⟨rfl, hdisabled⟩ fun t' _ => hall t')
    · rw [Bool.not_eq_true] at hdisabled
      simp only [stepEnable, answeredCall, ht, hdisabled, Bool.false_eq_true, if_false]
      refine Represents.answers ?_ (h.move houtside Thread.not_inside_idle)
      simp only [Node.step, Node.enable, Server.enableS2i, hdisabled, Bool.false_eq_true, if_false]
  | memory =>
    have hinside : (w.threads t).Inside := by
      rw [ht]
      exact Or.inr trivial
    obtain ⟨-, hmidway, hothers⟩ := h.midway hinside
    rw [ht] at hmidway
    obtain ⟨rfl, hdisabled⟩ := hmidway
    simp only [stepEnable, loadInMemory_newIterator, answeredCall, ht]
    rw [go_of_mutex hmutex]
    exact Represents.shows (.inside rfl (Or.inr trivial) ⟨rfl, hdisabled⟩ hothers)
  | flag =>
    have hinside : (w.threads t).Inside := by
      rw [ht]
      exact Or.inr trivial
    obtain ⟨-, hmidway, hothers⟩ := h.midway hinside
    rw [ht] at hmidway
    obtain ⟨hserver, hdisabled⟩ := hmidway
    simp only [stepEnable, answeredCall, ht]
    rw [go_of_mutex hmutex]
    refine Represents.answers ?_ (.leave Thread.not_inside_idle hothers)
    simp only [Node.step, Node.enable, Server.enableS2i, hdisabled, if_true,
      loadInMemory_newIterator, hserver]

/-- One constructor of the thread a case: what a step shows is what the events do. -/
theorem Represents.step (h : Represents s w) (hundisturbed : w.Undisturbed a)
    (hstep : w.step a = some (o, w')) : w'.Shows s (answeredCall ⟨w, a, o, w'⟩) := by
  cases a with
  | call t c =>
    rcases ht : w.threads t with _ | ⟨request, stage⟩ | point | point
    · simp only [World.step, ht, Option.some.injEq, Prod.mk.injEq] at hstep
      obtain ⟨rfl, rfl⟩ := hstep
      refine Represents.shows (h.move ?_ (Thread.not_inside_start c))
      rw [ht]
      exact Thread.not_inside_idle
    all_goals simp [World.step, ht] at hstep
  | step t =>
    rcases ht : w.threads t with _ | ⟨request, stage⟩ | point | point
    · simp [World.step, ht] at hstep
    · simp only [World.step, ht] at hstep
      have hsilent : o = none ∧ w'.Shows s none →
          w'.Shows s (answeredCall ⟨w, .step t, o, w'⟩) := by
        rintro ⟨rfl, hshows⟩
        simpa only [answeredCall, ht] using hshows
      rcases stage with _ | _ | ⟨todo, kvPairs, ids⟩ | result | result
      · exact hsilent (h.acquire hundisturbed.1 ht hstep)
      · exact hsilent (h.between ht (by rw [ht]; trivial) (by simp) hstep)
      · exact hsilent (h.between ht (by rw [ht]; trivial) (by simp) hstep)
      · obtain ⟨outcome, rfl, hshows⟩ := h.release ht hstep
        exact hshows
      · cases hstep
    · simp only [World.step, ht, Option.some.injEq, Prod.mk.injEq] at hstep
      obtain ⟨rfl, rfl⟩ := hstep
      exact h.disable hundisturbed ht
    · simp only [World.step, ht, Option.some.injEq, Prod.mk.injEq] at hstep
      obtain ⟨rfl, rfl⟩ := hstep
      exact h.enable hundisturbed ht

/-! ### Interleavings -/

end Steps

/-- A request that arrives first and is overtaken by another one and by a toggle. -/
def overtaken : List (Action Bool) :=
  [.call false (.query { op := .STR2ID, strings := [[97], [98]] }),
    .call true (.query { op := .STR2ID, strings := [[98]] }),
    .step true, .step true, .step true, .step true, .step true, .call true .disableS2i,
    .step true, .step true, .step true, .step false, .step false, .step false]

/-- A result that goes to the client. -/
def Sendable (result : Except Fault Query) : Prop :=
  (∃ response, result = .ok response) ∨ ∃ e, result = .error (.numeratorException e)

/-- Where a step of a query takes the mutex and its thread `t`. -/
inductive Moves (t : T) (request : Query) : Option T → Stage → Option T → Thread → Prop where
  | acquire : Moves t request none .called (some t) (.query request .locked)
  | look (mutex : Option T) (result : Except Fault Query) (hresult : Sendable result) :
      Moves t request mutex .locked mutex (.query request (.finished result))
  | enter (mutex : Option T) :
      Moves t request mutex .locked mutex (.query request (.numbering request.strings [] []))
  | find (mutex : Option T) (str : Bytes) (todo : List Bytes) (kvPairs kvPairs' : List KVPair)
      (ids ids' : List NumID) :
      Moves t request mutex (.numbering (str :: todo) kvPairs ids) mutex
        (.query request (.numbering todo kvPairs' ids'))
  | write (mutex : Option T) (kvPairs : List KVPair) (ids : List NumID)
      (result : Except Fault Query) (hresult : Sendable result) :
      Moves t request mutex (.numbering [] kvPairs ids) mutex
        (.query request (.finished result))
  | release (mutex : Option T) (result : Except Fault Query) :
      Moves t request mutex (.finished result) none .idle

theorem Moves.not_toggles {request : Query} {mutex mutex' : Option T} {stage : Stage}
    {thread : Thread} (h : Moves t request mutex stage mutex' thread) : ¬ thread.Toggles := by
  cases h <;> exact id

section Queries

variable [DecidableEq T] {a : Action T} {o : Option (Query × Outcome)}

theorem moves_of_stepQuery {request : Query} {stage : Stage}
    (h : w.stepQuery t request stage = some (o, w')) :
    ∃ thread, w'.threads = Function.update w.threads t thread ∧
      Moves t request w.mutex stage w'.mutex thread := by
  rcases stage with _ | _ | ⟨_ | ⟨str, todo⟩, kvPairs, ids⟩ | result | result
  · rcases hmutex : w.mutex with _ | t'
    · simp only [stepQuery, hmutex] at h
      cases h
      exact ⟨_, rfl, .acquire⟩
    · simp [stepQuery, hmutex] at h
  · simp only [stepQuery, Server.stepQuery] at h
    rcases hop : request.op with _ | _ | code
    · by_cases hdisabled : w.server.disableS2iQueries = true
      · simp only [hop, hdisabled, if_true] at h
        cases h
        exact ⟨_, rfl, .look _ _ (Or.inr ⟨_, rfl⟩)⟩
      · simp only [hop, hdisabled] at h
        cases h
        exact ⟨_, rfl, .enter _⟩
    · simp only [hop, lookup_eq] at h
      cases h
      exact ⟨_, rfl, .look _ _ (Or.inl ⟨_, rfl⟩)⟩
    · simp only [hop] at h
      cases h
      exact ⟨_, rfl, .look _ _ (Or.inl ⟨_, rfl⟩)⟩
  · cases h
    exact ⟨_, rfl, .write _ _ _ _ (Or.inl ⟨_, rfl⟩)⟩
  · simp only [stepQuery, Server.stepQuery] at h
    rcases hround : Server.round {} ⟨w.server.memoryStorage, w.server.cnt, kvPairs, ids⟩ str
      with f | l
    · obtain rfl := Server.round_error hround
      simp [hround] at h
    · simp only [hround] at h
      cases h
      exact ⟨_, rfl, .find _ _ _ _ _ _ _⟩
  · rcases result with (e | e | u) | response <;> cases h
    all_goals exact ⟨_, rfl, .release _ _⟩
  · cases h

/-- Where nobody calls a toggle every step is undisturbed. -/
theorem undisturbed_of_queries {s : Server} {actions : List (Action T)}
    (hactions : ∀ t c, .call t c ∈ actions → ∃ request, c = .query request)
    {tr : List (Machine.Record (World T) (Action T) (Option (Query × Outcome)))}
    (h : Machine.run step (serving s) actions = some (tr, w)) :
    ∀ r ∈ tr, r.before.Undisturbed r.event := by
  have hkeeps : ∀ r : Machine.Record (World T) (Action T) (Option (Query × Outcome)),
      Machine.IsStep step r → (∀ t c, r.event = .call t c → ∃ request, c = .query request) →
        (∀ t, ¬ (r.before.threads t).Toggles) → ∀ t, ¬ (r.after.threads t).Toggles := by
    rintro ⟨w, a, o, w'⟩ hr hcall hbefore t
    obtain ⟨t', thread, hthreads, hthread⟩ : ∃ t' thread,
        w'.threads = Function.update w.threads t' thread ∧ ¬ thread.Toggles := by
      cases a with
      | call t' c =>
        obtain ⟨request, rfl⟩ := hcall t' c rfl
        simp only [Machine.IsStep, step] at hr
        split at hr <;> cases hr
        exact ⟨t', _, rfl, id⟩
      | step t' =>
        have hquery := hbefore t'
        simp only [Machine.IsStep, step] at hr
        rcases ht' : w.threads t' with _ | ⟨request, stage⟩ | point | point
        · simp [ht'] at hr
        · rw [ht'] at hr
          obtain ⟨thread, hthreads, hmoves⟩ := moves_of_stepQuery hr
          exact ⟨t', thread, hthreads, hmoves.not_toggles⟩
        all_goals
          rw [ht'] at hquery
          exact absurd trivial hquery
    rw [hthreads]
    by_cases ht : t = t'
    · subst ht
      simpa using hthread
    · simpa [ht] using hbefore t
  obtain ⟨-, hstates⟩ := Machine.run_invariant
    (fun r => ∀ t c, r.event = .call t c → ∃ request, c = .query request)
    (fun w => ∀ t, ¬ (w.threads t).Toggles) hkeeps h
    (fun r hr t c hevent => hactions t c (hevent ▸ Machine.event_mem_of_run h hr))
    (fun _ => id)
  intro r hr
  have hquiet := (hstates r hr).1
  unfold Undisturbed
  split
  · exact ⟨fun t' _ htoggling => hquiet t' htoggling.toggles,
      fun htoggles => absurd htoggles (hquiet _)⟩
  · trivial

end Queries

end World

end Numerator
