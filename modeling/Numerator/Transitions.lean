import Numerator.Rounds

/-!
# What an event can do

`Transition` lists the effects that an event has on a data directory, one
constructor for each path through the code. `transition_of_step` reads them off
`Node.step` once; every invariant is then a case analysis on transitions.
-/

namespace Numerator

open Std FiniteMap

/-- The memory map that a load of the database into an empty map gives: the last id in
    byte order for every C string. -/
def memoryOf (db : Store) : MemoryStorage := index CString.order cstr db

@[simp] theorem insertAll_empty (db : Store) :
    DiskStorage.insertAll ∅ db.toList = memoryOf db := rfl

namespace Node

inductive Transition : Node → Event → Outcome → Node → Prop where
  | startDisabled (db : Store) :
      Transition (.stopped db) (.start true) .done (.running ⟨db, ∅, 0, true⟩)
  | startLoaded (db : Store) (cnt : NumID)
      (hcnt : cnt.toInt = (DiskStorage.greatestId db).toInt + 1) :
      Transition (.stopped db) (.start false) .done (.running ⟨db, memoryOf db, cnt, false⟩)
  | lookup (s : Server) (q : Query) (hop : q.op = .ID2STR) :
      Transition (.running s) (.query q)
        (.response { op := .ID2STR
                     strings := q.ids.map fun k => s.diskStorage[k]?.getD []
                     failures := DiskStorage.missing s.diskStorage 0 q.ids })
        (.running s)
  | refused (s : Server) (q : Query) (hop : q.op = .STR2ID)
      (hdisabled : s.disableS2iQueries = true) :
      Transition (.running s) (.query q) (.refused Server.s2iDisabled) (.running s)
  | number (s : Server) (q : Query) (l : Server.Loop) (hop : q.op = .STR2ID)
      (henabled : s.disableS2iQueries = false)
      (hrounds : Server.rounds (fun _ => {}) 0 ⟨s.memoryStorage, s.cnt, [], []⟩ q.strings =
        .ok l) :
      Transition (.running s) (.query q) (.response { op := .STR2ID, ids := l.ids })
        (.running
          ⟨DiskStorage.putBatch s.diskStorage l.kvPairs, l.memoryStorage, l.cnt, false⟩)
  | unknown (s : Server) (q : Query) (code : Int32) (hop : q.op = .unknown code) :
      Transition (.running s) (.query q) (.response { op := .unknown code }) (.running s)
  | disable (s : Server) (henabled : s.disableS2iQueries = false) :
      Transition (.running s) .disableS2i .done
        (.running { s with memoryStorage := ∅, disableS2iQueries := true })
  | disableAgain (s : Server) (hdisabled : s.disableS2iQueries = true) :
      Transition (.running s) .disableS2i .done (.running s)
  | enable (s : Server) (hdisabled : s.disableS2iQueries = true) :
      Transition (.running s) .enableS2i .done
        (.running
          { s with
            memoryStorage := DiskStorage.insertAll s.memoryStorage s.diskStorage.toList
            disableS2iQueries := false })
  | enableAgain (s : Server) (henabled : s.disableS2iQueries = false) :
      Transition (.running s) .enableS2i .done (.running s)
  | stop (s : Server) : Transition (.running s) .stop .done (.stopped s.diskStorage)
  | ignoredStart (s : Server) (disableS2iQueries : Bool) :
      Transition (.running s) (.start disableS2iQueries) .ignored (.running s)
  | ignoredStopped (db : Store) (e : Event)
      (he : ∀ disableS2iQueries, e ≠ .start disableS2iQueries) :
      Transition (.stopped db) e .ignored (.stopped db)

section Inversion

variable {s : Server} {q : Query} {o : Outcome} {n n' : Node} {e : Event}

theorem transition_of_start {db : Store} {disableS2iQueries : Bool}
    (h : start (DiskStorage.newIterator db) (fun _ => {}) db disableS2iQueries = some (o, n)) :
    Transition (.stopped db) (.start disableS2iQueries) o n := by
  cases disableS2iQueries with
  | true =>
    simp only [start, if_true, Option.some.injEq, Prod.mk.injEq] at h
    obtain ⟨rfl, rfl⟩ := h
    exact .startDisabled db
  | false =>
    simp only [start, DiskStorage.loadInMemory_newIterator, insertAll_empty,
      Bool.false_eq_true, if_false] at h
    split at h
    · cases h
    · rename_i cnt hcnt
      simp only [Option.some.injEq, Prod.mk.injEq] at h
      obtain ⟨rfl, rfl⟩ := h
      exact .startLoaded db cnt (NumID.increment_eq_ok.mp hcnt)

theorem transition_of_query (h : query {} s q = some (o, n)) :
    Transition (.running s) (.query q) o n := by
  unfold query Server.queryImpl at h
  rcases hop : q.op with _ | _ | code
  · by_cases hdisabled : s.disableS2iQueries = true
    · simp only [hop, hdisabled, if_true, Option.some.injEq, Prod.mk.injEq] at h
      obtain ⟨rfl, rfl⟩ := h
      exact .refused s q hop hdisabled
    · rw [Bool.not_eq_true] at hdisabled
      rcases hrounds : Server.rounds (fun _ => {}) 0 ⟨s.memoryStorage, s.cnt, [], []⟩
        q.strings with f | l
      · obtain ⟨rfl, -⟩ := Server.rounds_error (Server.numbered_nil _ _) hrounds
        simp [hop, hdisabled, hrounds] at h
      · simp only [hop, hdisabled, hrounds, DiskStorage.write, Bool.false_eq_true, if_false,
          Option.some.injEq, Prod.mk.injEq] at h
        obtain ⟨rfl, rfl⟩ := h
        exact .number s q l hop hdisabled hrounds
  · simp only [hop, DiskStorage.lookup_eq, Option.some.injEq, Prod.mk.injEq] at h
    obtain ⟨rfl, rfl⟩ := h
    exact .lookup s q hop
  · simp only [hop, Option.some.injEq, Prod.mk.injEq] at h
    obtain ⟨rfl, rfl⟩ := h
    exact .unknown s q code hop

theorem transition_of_enable
    (h : enable (DiskStorage.newIterator s.diskStorage) (fun _ => {}) s = some (o, n)) :
    Transition (.running s) .enableS2i o n := by
  unfold enable Server.enableS2i at h
  by_cases hdisabled : s.disableS2iQueries = true
  · simp only [hdisabled, if_true, DiskStorage.loadInMemory_newIterator, Option.some.injEq,
      Prod.mk.injEq] at h
    obtain ⟨rfl, rfl⟩ := h
    exact .enable s hdisabled
  · rw [Bool.not_eq_true] at hdisabled
    simp only [hdisabled, Bool.false_eq_true, if_false, Option.some.injEq,
      Prod.mk.injEq] at h
    obtain ⟨rfl, rfl⟩ := h
    exact .enableAgain s hdisabled

theorem transition_of_step (h : step n e = some (o, n')) : Transition n e o n' := by
  cases n with
  | stopped db =>
    cases e with
    | start disableS2iQueries => exact transition_of_start h
    | query _ | disableS2i | enableS2i | stop =>
      cases h
      exact .ignoredStopped _ _ (by simp)
  | running s =>
    cases e with
    | start _ =>
      cases h
      exact .ignoredStart _ _
    | query q => exact transition_of_query h
    | disableS2i =>
      simp only [step, Server.disableS2i, MemoryStorage.unload, Option.some.injEq,
        Prod.mk.injEq] at h
      obtain ⟨rfl, rfl⟩ := h
      by_cases hdisabled : s.disableS2iQueries = true
      · rw [if_pos hdisabled]
        exact .disableAgain s hdisabled
      · rw [if_neg hdisabled]
        exact .disable s (by simpa using hdisabled)
    | enableS2i => exact transition_of_enable h
    | stop =>
      cases h
      exact .stop s

/-- The only undefined step of a running process: a STR2ID query that needs more ids
    than are left. -/
theorem query_eq_none (h : query {} s q = none) :
    q.op = .STR2ID ∧ s.disableS2iQueries = false ∧
      2 ^ 63 ≤ s.cnt.toInt + (Server.newStrings s.memoryStorage q.strings).length := by
  unfold query Server.queryImpl at h
  rcases hop : q.op with _ | _ | code
  · by_cases hdisabled : s.disableS2iQueries = true
    · simp [hop, hdisabled] at h
    · rw [Bool.not_eq_true] at hdisabled
      rcases hrounds : Server.rounds (fun _ => {}) 0 ⟨s.memoryStorage, s.cnt, [], []⟩
        q.strings with f | l
      · exact ⟨rfl, hdisabled, (Server.rounds_error (Server.numbered_nil _ _) hrounds).2⟩
      · simp [hop, hdisabled, hrounds, DiskStorage.write] at h
  · simp [hop, DiskStorage.lookup_eq] at h
  · simp [hop] at h

theorem start_eq_none {db : Store} {disableS2iQueries : Bool}
    (h : start (DiskStorage.newIterator db) (fun _ => {}) db disableS2iQueries = none) :
    disableS2iQueries = false ∧ (DiskStorage.greatestId db).toInt = 2 ^ 63 - 1 := by
  cases disableS2iQueries with
  | true => simp [start] at h
  | false =>
    simp only [start, DiskStorage.loadInMemory_newIterator, Bool.false_eq_true, if_false] at h
    split at h
    · rename_i f hcnt
      exact ⟨rfl, (NumID.increment_eq_error.mp hcnt).1⟩
    · cases h

theorem enable_ne_none :
    enable (DiskStorage.newIterator s.diskStorage) (fun _ => {}) s ≠ none := by
  unfold enable Server.enableS2i
  rcases hdisabled : s.disableS2iQueries <;>
    simp [DiskStorage.loadInMemory_newIterator]

end Inversion

end Node

end Numerator
