import Numerator.Transitions

/-!
# Cutting a stream of strings into requests

A STR2ID request is one pass of the loop over its strings followed by one write.
Passes compose: a pass over `xs ++ ys` is a pass over `xs` and one over `ys` from
where the first stopped, and their two writes add up to the single one. So a run
of queries only depends on the concatenation of the strings it asks for.
-/

namespace Numerator

open DiskStorage

namespace Server

/-! ### The loop over a concatenation -/

/-- The loop with something pending and answered before it. -/
def Loop.prepend (kvPairs : List KVPair) (ids : List NumID) (l : Loop) : Loop :=
  { l with kvPairs := kvPairs ++ l.kvPairs, ids := ids ++ l.ids }

variable {kvPairs : List KVPair} {ids : List NumID}

theorem round_prepend (reply : JudyReply) (l : Loop) (str : Bytes) :
    round reply (l.prepend kvPairs ids) str =
      (round reply l str).map (Loop.prepend kvPairs ids) := by
  unfold round
  simp only [Loop.prepend]
  rcases MemoryStorage.find reply l.memoryStorage str l.cnt with f | r
  · rfl
  · rcases hins : r.inserted <;> simp [Except.map, Loop.prepend, hins]

/-- What is pending before the loop does not influence it. -/
theorem rounds_prepend (judy : Nat → JudyReply) (i : Nat) (l : Loop) (strings : List Bytes) :
    rounds judy i (l.prepend kvPairs ids) strings =
      (rounds judy i l strings).map (Loop.prepend kvPairs ids) := by
  induction strings generalizing i l with
  | nil => rfl
  | cons str strings ih =>
    rw [rounds, rounds, round_prepend]
    rcases round (judy i) l str with f | l'
    · rfl
    · exact ih (i + 1) l'

theorem rounds_append (judy : Nat → JudyReply) (i : Nat) (l : Loop) (xs ys : List Bytes) :
    rounds judy i l (xs ++ ys) =
      (rounds judy i l xs).bind fun l' => rounds judy (i + xs.length) l' ys := by
  induction xs generalizing i l with
  | nil => rfl
  | cons x xs ih =>
    rw [List.cons_append, rounds, rounds]
    rcases round (judy i) l x with f | l'
    · rfl
    · rw [List.length_cons, Nat.add_comm xs.length, ← Nat.add_assoc]
      exact ih (i + 1) l'

/-! ### One request after another -/

/-- The answer to a STR2ID request with these strings and the process after it, unless
    the counter overflows. -/
def answer (s : Server) (strings : List Bytes) : Option (List NumID × Server) :=
  match rounds (fun _ => {}) 0 ⟨s.memoryStorage, s.cnt, [], []⟩ strings with
  | .error _ => none
  | .ok l =>
      some (l.ids, ⟨putBatch s.diskStorage l.kvPairs, l.memoryStorage, l.cnt, false⟩)

theorem putBatch_append (db : Store) (xs ys : List KVPair) :
    putBatch db (xs ++ ys) = putBatch (putBatch db xs) ys :=
  FiniteMap.putAll_append xs ys

/-- A request for `xs ++ ys` is a request for `xs` followed by one for `ys`. -/
theorem answer_append (s : Server) (xs ys : List Bytes) :
    s.answer (xs ++ ys) =
      (s.answer xs).bind fun p => (p.2.answer ys).map fun q => (p.1 ++ q.1, q.2) := by
  unfold answer
  rw [rounds_append]
  rcases hxs : rounds (fun _ => {}) 0 ⟨s.memoryStorage, s.cnt, [], []⟩ xs with f | l
  · rfl
  · -- the second pass starts with the pairs and the answer of the first
    have hsecond : rounds (fun _ => {}) (0 + xs.length) l ys =
        (rounds (fun _ => {}) 0 ⟨l.memoryStorage, l.cnt, [], []⟩ ys).map
          (Loop.prepend l.kvPairs l.ids) := by
      rw [rounds_index _ 0, ← rounds_prepend]
      simp [Loop.prepend]
    simp only [Except.bind, hsecond, Option.bind_some]
    rcases rounds (fun _ => {}) 0 ⟨l.memoryStorage, l.cnt, [], []⟩ ys with f | l'
    · rfl
    · simp only [Except.map, Loop.prepend, Option.map_some, putBatch_append]

theorem answer_nil {s : Server} (henabled : s.disableS2iQueries = false) :
    s.answer [] = some ([], s) := by
  obtain ⟨db, memory, cnt, disabled⟩ := s
  cases henabled
  rfl

theorem answer_enabled {s s' : Server} {strings : List Bytes} {ids : List NumID}
    (h : s.answer strings = some (ids, s')) : s'.disableS2iQueries = false := by
  unfold answer at h
  split at h
  · cases h
  · cases h
    rfl

end Server

open Server

theorem query_STR2ID {s : Server} (henabled : s.disableS2iQueries = false) {q : Query}
    (hop : q.op = .STR2ID) :
    Node.query {} s q = (s.answer q.strings).map fun p =>
      (.response { op := .STR2ID, ids := p.1 }, .running p.2) := by
  unfold Node.query queryImpl answer
  rcases hrounds : rounds (fun _ => {}) 0 ⟨s.memoryStorage, s.cnt, [], []⟩ q.strings with f | l
  · obtain ⟨rfl, -⟩ := rounds_error (numbered_nil _ _) hrounds
    simp [hop, henabled]
  · simp [hop, henabled, write]

/-! ### Runs of queries -/

/-- The strings that a query asks to number. -/
def Query.requested (q : Query) : List Bytes := if q.op = .STR2ID then q.strings else []

/-- The ids that the responses of a run return, one after another. -/
def returnedIds (tr : List (Machine.Record Node Event Outcome)) : List NumID :=
  tr.flatMap fun r =>
    match r.output with
    | .response q => q.ids
    | _ => []

/-- A run of queries against a process: the returned ids and the process afterwards. -/
def serve (s : Server) (qs : List Query) : Option (List NumID × Node) :=
  (history (.running s) (qs.map .query)).map fun p => (returnedIds p.1, p.2)

theorem serve_cons {s s' : Server} {q : Query} {qs : List Query} {response : Query}
    (hstep : Node.query {} s q = some (.response response, .running s')) :
    serve s (q :: qs) = (serve s' qs).map fun p => (response.ids ++ p.1, p.2) := by
  unfold serve
  rw [List.map_cons, history,
    Machine.run_cons (show Node.step (.running s) (.query q) = _ from hstep)]
  rcases Machine.run Node.step (.running s') (qs.map .query) with _ | ⟨tr, n⟩ <;> rfl

/-- A run of queries does what a single request for all its strings does. -/
theorem serve_eq_answer (s : Server) (henabled : s.disableS2iQueries = false) (qs : List Query)
    (hqs : ∀ q ∈ qs, q.op = .STR2ID ∨ q.op = .ID2STR) :
    serve s qs =
      (s.answer (qs.flatMap Query.requested)).map fun p => (p.1, .running p.2) := by
  induction qs generalizing s with
  | nil =>
    rw [List.flatMap_nil, answer_nil henabled]
    rfl
  | cons q qs ih =>
    rw [List.forall_mem_cons] at hqs
    rw [List.flatMap_cons]
    rcases hqs.1 with hop | hop
    · rw [Query.requested, if_pos hop, answer_append]
      have hquery := query_STR2ID henabled hop
      rcases hanswer : s.answer q.strings with _ | ⟨ids, s'⟩
      · rw [hanswer] at hquery
        unfold serve
        rw [List.map_cons, history,
          Machine.run_cons_of_none (show Node.step (.running s) (.query q) = none from hquery)]
        rfl
      · rw [hanswer] at hquery
        rw [serve_cons hquery, ih s' (answer_enabled hanswer) hqs.2, Option.bind_some]
        rcases s'.answer (qs.flatMap Query.requested) with _ | ⟨ids', s''⟩ <;> rfl
    · have hlookup : Node.query {} s q = some (.response
          { op := .ID2STR
            strings := q.ids.map fun k => s.diskStorage[k]?.getD []
            failures := missing s.diskStorage 0 q.ids }, .running s) := by
        simp only [Node.query, queryImpl, hop, lookup_eq]
      rw [Query.requested, hop, if_neg (by decide), List.nil_append, serve_cons hlookup,
        ih s henabled hqs.2]
      rcases s.answer (qs.flatMap Query.requested) with _ | ⟨ids, s'⟩ <;> rfl

/-- How a list of strings is cut into requests shows neither in the ids that are returned
    nor in the process afterwards; if one cut overflows the counter, so does every other. -/
theorem cutting_unobservable (s : Server) (henabled : s.disableS2iQueries = false)
    (qs qs' : List Query) (hqs : ∀ q ∈ qs, q.op = .STR2ID ∨ q.op = .ID2STR)
    (hqs' : ∀ q ∈ qs', q.op = .STR2ID ∨ q.op = .ID2STR)
    (hstrings : qs.flatMap Query.requested = qs'.flatMap Query.requested) :
    serve s qs = serve s qs' := by
  rw [serve_eq_answer s henabled qs hqs, serve_eq_answer s henabled qs' hqs', hstrings]

/-- A repeated and a known string, cut in two ways. -/
theorem cutting_unobservable_repeated :
    let s : Server := ⟨(∅ : Store).insert 1 [97], memoryOf ((∅ : Store).insert 1 [97]), 2, false⟩
    serve s [{ op := .STR2ID, strings := [[98], [97], [98]] }] =
      serve s [{ op := .STR2ID, strings := [[98]] }, { op := .ID2STR, ids := [2] },
        { op := .STR2ID }, { op := .STR2ID, strings := [[97], [98]] }] := by
  intro s
  exact cutting_unobservable s rfl _ _ (by decide) (by decide) rfl

end Numerator
