import Numerator.Transitions

/-!
# A query step by step

`query_impl` cut at every point where another thread or the end of the process
can come between: taking the mutex, the lookup or the check of the disabled
flag, each `find`, the write, and the release of the mutex. Undisturbed the
steps do what `queryImpl` does.
-/

namespace Numerator

open DiskStorage

/-- What the libraries report in one step. -/
structure StepReply where
  judy : JudyReply := {}
  write : WriteReply := .ok
  get : Nat → Option String := fun _ => none

/-- How far a query has come. It holds the mutex from `locked` to `finished`. -/
inductive Stage where
  | called
  | locked
  | numbering (todo : List Bytes) (kvPairs : List KVPair) (ids : List NumID)
  | finished (result : Except Fault Query)
  | returned (result : Except Fault Query)
deriving DecidableEq

namespace Server

/-- An exception leaves `query_impl` through the release of the mutex as well. -/
def stepQuery (reply : StepReply) (request : Query) (s : Server) : Stage → Option (Server × Stage)
  | .called => some (s, .locked)
  | .locked =>
    match request.op with
    | .ID2STR =>
      match lookup reply.get s.diskStorage request.ids [] [] with
      | .error f => some (s, .finished (.error f))
      | .ok (values, failures) =>
          some (s, .finished
            (.ok { op := request.op, strings := values, failures := failures }))
    | .STR2ID =>
      if s.disableS2iQueries then
        some (s, .finished (.error (.numeratorException s2iDisabled)))
      else some (s, .numbering request.strings [] [])
    | .unknown _ => some (s, .finished (.ok { op := request.op }))
  | .numbering (str :: todo) kvPairs ids =>
    match round reply.judy ⟨s.memoryStorage, s.cnt, kvPairs, ids⟩ str with
    | .error (.undefined _) => none
    | .error f => some (s, .finished (.error f))
    | .ok l =>
        some ({ s with memoryStorage := l.memoryStorage, cnt := l.cnt },
          .numbering todo l.kvPairs l.ids)
  | .numbering [] kvPairs ids =>
    match write reply.write s.diskStorage kvPairs with
    | (db, .error f) => some ({ s with diskStorage := db }, .finished (.error f))
    | (db, .ok ()) =>
        some ({ s with diskStorage := db },
          .finished (.ok { op := request.op, ids := ids }))
  | .finished result => some (s, .returned result)
  | .returned _ => none

/-- The steps of one query in a process where nothing else runs. -/
def querySteps (request : Query) : Server × Stage → List StepReply →
    Option (List (Machine.Record (Server × Stage) StepReply Unit) × (Server × Stage)) :=
  Machine.run fun p reply => (stepQuery reply request p.1 p.2).map fun p' => ((), p')

/-! ### Undisturbed steps -/

variable {request : Query}

theorem exists_querySteps_cons {p p' q : Server × Stage} {replies : List StepReply}
    (hstep : stepQuery {} request p.1 p.2 = some p')
    (h : ∃ tr, querySteps request p' replies = some (tr, q)) :
    ∃ tr, querySteps request p ({} :: replies) = some (tr, q) :=
  Machine.exists_run_cons (o := ()) (by rw [hstep]; rfl) h

theorem querySteps_rounds {s : Server} {i : Nat} {todo : List Bytes} {kvPairs : List KVPair}
    {ids : List NumID} {l : Loop}
    (h : rounds (fun _ => {}) i ⟨s.memoryStorage, s.cnt, kvPairs, ids⟩ todo = .ok l) :
    ∃ tr, querySteps request (s, .numbering todo kvPairs ids)
      (List.replicate todo.length {}) =
        some (tr, ({ s with memoryStorage := l.memoryStorage, cnt := l.cnt },
          .numbering [] l.kvPairs l.ids)) := by
  induction todo generalizing s i kvPairs ids with
  | nil =>
    cases h
    exact ⟨[], rfl⟩
  | cons str todo ih =>
    rw [rounds] at h
    rcases hround : round {} ⟨s.memoryStorage, s.cnt, kvPairs, ids⟩ str with f | l'
    · simp [hround] at h
    · simp only [hround] at h
      have hstep : stepQuery {} request s (.numbering (str :: todo) kvPairs ids) =
          some ({ s with memoryStorage := l'.memoryStorage, cnt := l'.cnt },
            .numbering todo l'.kvPairs l'.ids) := by
        simp only [stepQuery, hround]
      exact exists_querySteps_cons hstep (ih h)

/-- Step by step a query comes to the process and the result of `queryImpl`. -/
theorem querySteps_queryImpl {s s' : Server} {result : Except Fault Query}
    (h : queryImpl {} s {} request = (s', result))
    (hdefined : ∀ u, result ≠ .error (.undefined u)) :
    ∃ replies tr, querySteps request (s, .called) replies =
      some (tr, (s', .returned result)) := by
  have hfinished : ∃ tr, querySteps request (s', .finished result) [{}] =
      some (tr, (s', .returned result)) :=
    exists_querySteps_cons rfl ⟨[], rfl⟩
  unfold queryImpl at h
  rcases hop : request.op with _ | _ | code
  · by_cases hdisabled : s.disableS2iQueries = true
    · simp only [hop, hdisabled, if_true, Prod.mk.injEq] at h
      obtain ⟨rfl, rfl⟩ := h
      have hcheck : stepQuery {} request s .locked =
          some (s, .finished (.error (.numeratorException s2iDisabled))) := by
        simp only [stepQuery, hop, hdisabled, if_true]
      exact ⟨_, exists_querySteps_cons rfl (exists_querySteps_cons hcheck hfinished)⟩
    · rw [Bool.not_eq_true] at hdisabled
      have hcheck : stepQuery {} request s .locked =
          some (s, .numbering request.strings [] []) := by
        simp only [stepQuery, hop, hdisabled, Bool.false_eq_true, if_false]
      rcases hrounds : rounds (fun _ => {}) 0 ⟨s.memoryStorage, s.cnt, [], []⟩
        request.strings with f | l
      · simp only [hop, hdisabled, hrounds, Bool.false_eq_true, if_false, Prod.mk.injEq] at h
        obtain ⟨rfl, -⟩ := rounds_error (numbered_nil _ _) hrounds
        exact absurd h.2.symm (hdefined _)
      · simp only [hop, hdisabled, hrounds, write, Bool.false_eq_true, if_false,
          Prod.mk.injEq] at h
        obtain ⟨rfl, rfl⟩ := h
        have hwrite : stepQuery {} request
            { s with memoryStorage := l.memoryStorage, cnt := l.cnt }
            (.numbering [] l.kvPairs l.ids) =
              some (⟨putBatch s.diskStorage l.kvPairs, l.memoryStorage, l.cnt, false⟩,
                .finished (.ok { op := .STR2ID, ids := l.ids })) := by
          simp only [stepQuery, write, hop, hdisabled]
        exact ⟨_, exists_querySteps_cons rfl (exists_querySteps_cons hcheck
          (Machine.exists_run_append (querySteps_rounds hrounds)
            (exists_querySteps_cons hwrite hfinished)))⟩
  · simp only [hop, lookup_eq, Prod.mk.injEq] at h
    obtain ⟨rfl, rfl⟩ := h
    have hlookup : stepQuery {} request s .locked = some (s, .finished
        (.ok { op := .ID2STR
               strings := request.ids.map fun k => s.diskStorage[k]?.getD []
               failures := missing s.diskStorage 0 request.ids })) := by
      simp only [stepQuery, hop, lookup_eq]
    exact ⟨_, exists_querySteps_cons rfl (exists_querySteps_cons hlookup hfinished)⟩
  · simp only [hop, Prod.mk.injEq] at h
    obtain ⟨rfl, rfl⟩ := h
    have hunknown : stepQuery {} request s .locked =
        some (s, .finished (.ok { op := .unknown code })) := by
      simp only [stepQuery, hop]
    exact ⟨_, exists_querySteps_cons rfl (exists_querySteps_cons hunknown hfinished)⟩

end Server

end Numerator
