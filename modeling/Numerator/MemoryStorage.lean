import Numerator.FiniteMap
import Numerator.Types

/-!
# The memory storage

`memory_storage.hpp` and `memory_storage.cpp`: the map from strings to ids that
serves STR2ID. It is a Judy array keyed by C strings, so a string reaches it
only up to its first NUL. What the two Judy calls of an operation report is an
argument of the operation; a failing call leaves the array as it was.
-/

namespace Numerator

open Std

/-- The error codes of `JudySLGet` and `JudySLIns` in one call, where they fail. -/
structure JudyReply where
  get : Option Nat := none
  ins : Option Nat := none
deriving DecidableEq, Repr

abbrev MemoryStorage := ExtTreeMap CString NumID CString.order

namespace MemoryStorage

/-- What `find` leaves behind: the array, the counter and its result pair. -/
structure Found where
  data : MemoryStorage
  counter : NumID
  inserted : Bool
  id : NumID

def find (reply : JudyReply) (data : MemoryStorage) (s : Bytes) (counter : NumID) :
    Except Fault Found :=
  match reply.get with
  | some errno => .error (.exc (.memoryOperation errno))
  | none =>
    match data[cstr s]? with
    | some id => .ok ⟨data, counter, false, id⟩
    | none =>
      match reply.ins with
      | some errno => .error (.exc (.memoryAllocation errno))
      | none =>
        match NumID.increment counter with
        | .error f => .error f
        | .ok next => .ok ⟨ExtTreeMap.insert data (cstr s) counter, next, true, counter⟩

def insert (reply : JudyReply) (data : MemoryStorage) (s : Bytes) (id : NumID) :
    Except Fault MemoryStorage :=
  match reply.get with
  | some errno => .error (.exc (.memoryOperation errno))
  | none =>
    match data[cstr s]? with
    | some _ => .ok (ExtTreeMap.insert data (cstr s) id)
    | none =>
      match reply.ins with
      | some errno => .error (.exc (.memoryAllocation errno))
      | none => .ok (ExtTreeMap.insert data (cstr s) id)

/-- `JSLFA` frees the whole array. -/
def unload (_data : MemoryStorage) : MemoryStorage := ∅

variable {reply : JudyReply} {data data' : MemoryStorage} {s : Bytes} {id counter : NumID}

theorem find_of_some (h : data[cstr s]? = some id) :
    find {} data s counter = .ok ⟨data, counter, false, id⟩ := by
  simp only [find, h]

theorem find_of_none {next : NumID} (h : data[cstr s]? = none)
    (hnext : NumID.increment counter = .ok next) :
    find {} data s counter =
      .ok ⟨ExtTreeMap.insert data (cstr s) counter, next, true, counter⟩ := by
  simp only [find, h, hnext]

/-- Everything a successful `find` can do: it returns the id of a known string, or it
    gives the counter to a new one and increments it. -/
theorem find_cases {r : Found} (h : find reply data s counter = .ok r) :
    (data[cstr s]? = some r.id ∧ r.data = data ∧ r.counter = counter ∧ r.inserted = false) ∨
    (data[cstr s]? = none ∧ r.data = ExtTreeMap.insert data (cstr s) counter ∧
      r.counter.toInt = counter.toInt + 1 ∧ r.inserted = true ∧ r.id = counter) := by
  unfold find at h
  rcases hget : reply.get with _ | errno
  · rcases hdata : data[cstr s]? with _ | id
    · rcases hins : reply.ins with _ | errno
      · rcases hnext : NumID.increment counter with f | next
        · simp [hget, hdata, hins, hnext] at h
        · simp only [hget, hdata, hins, hnext, Except.ok.injEq] at h
          subst h
          exact Or.inr ⟨rfl, rfl, NumID.increment_eq_ok.mp hnext, rfl, rfl⟩
      · simp [hget, hdata, hins] at h
    · simp only [hget, hdata, Except.ok.injEq] at h
      subst h
      exact Or.inl ⟨rfl, rfl, rfl, rfl⟩
  · simp [hget] at h

/-- Without a failing Judy call `find` only fails when the counter is exhausted. -/
theorem find_error {f : Fault} (h : find {} data s counter = .error f) :
    data[cstr s]? = none ∧ counter.toInt = 2 ^ 63 - 1 ∧ f = .undefined .signedOverflow := by
  unfold find at h
  rcases hdata : data[cstr s]? with _ | id
  · rcases hnext : NumID.increment counter with f' | next
    · simp only [hdata, hnext, Except.error.injEq] at h
      subst h
      exact ⟨rfl, NumID.increment_eq_error.mp hnext⟩
    · simp [hdata, hnext] at h
  · simp [hdata] at h

/-- What Judy reports only decides whether `find` succeeds, not what it does then. -/
theorem find_of_ok {r : Found} (h : find reply data s counter = .ok r) :
    find {} data s counter = .ok r := by
  rcases find_cases h with ⟨hknown, hdata, hcounter, hins⟩ | ⟨hnew, hdata, hcounter, hins, hid⟩
  · rw [find_of_some hknown, ← hdata, ← hins, ← hcounter]
  · rw [find_of_none hnew (NumID.increment_eq_ok.mpr hcounter), ← hdata, ← hins]
    obtain ⟨data', counter', inserted, id⟩ := r
    cases hid
    rfl

@[simp] theorem insert_ok :
    insert {} data s id = .ok (ExtTreeMap.insert data (cstr s) id) := by
  unfold insert
  rcases data[cstr s]? with _ | old <;> rfl

theorem insert_eq_ok (h : insert reply data s id = .ok data') :
    data' = ExtTreeMap.insert data (cstr s) id := by
  unfold insert at h
  split at h
  · cases h
  · split at h
    · cases h
      rfl
    · split at h
      · cases h
      · cases h
        rfl

theorem insert_eq_error {f : Fault} (h : insert reply data s id = .error f) :
    ∃ e, f = .exc e := by
  unfold insert at h
  split at h
  · cases h
    exact ⟨_, rfl⟩
  · split at h
    · cases h
    · split at h
      · cases h
        exact ⟨_, rfl⟩
      · cases h

end MemoryStorage

end Numerator
