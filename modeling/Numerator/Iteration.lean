import Numerator.Dump
import Numerator.Loaded

/-!
# Iterators that meet an error

A LevelDB iterator becomes invalid behind the last entry, and also where it
meets a read or corruption error; then its status says so. `load_in_memory` and
`dump` ask for the status only while the iterator is valid, so they return
normally in both cases. They have read the whole database exactly when the
iterator has yielded it.
-/

namespace Numerator

open Std FiniteMap DiskStorage

/-! ### What is expected -/

namespace Iterator

/-- A run over the database as LevelDB documents it. -/
structure RunsOver (it : Iterator) (db : Store) : Prop where
  inOrder : it.entries <+: db.toList
  valid : ∀ i, i < it.entries.length → it.status i = none
  ended : it.status it.entries.length = none → it.entries = db.toList

/-- A load throws, or it has inserted every entry and returns the maximum of 0 and the
    stored ids. -/
def LoadsAll (it : Iterator) (db : Store) : Prop :=
  ∀ (judy : Nat → JudyReply) (storage storage' : MemoryStorage)
    (result : Except Fault (NumID × Nat)),
    loadInMemory it judy storage = (storage', result) →
      (∃ e, result = .error (.exc e)) ∨
        ∃ maxId, result = .ok (maxId, db.toList.length) ∧
          storage' = insertAll storage db.toList ∧
          IsGreatest {x : Int | x = 0 ∨ ∃ id ∈ db, id.toInt = x} maxId.toInt

/-- A dump throws, or it has written every entry. -/
def DumpsAll (it : Iterator) (db : Store) : Prop :=
  ∀ (stream stream' : Bytes) (binaryDump : Bool) (result : Except Fault Unit),
    dump it stream binaryDump = (stream', result) →
      (∃ e, result = .error (.exc e)) ∨
        result = .ok () ∧ stream' = stream ++ dumpHeader binaryDump ++ records binaryDump db.toList

end Iterator

/-- A call of a client, and what the libraries report while it is served. -/
inductive ServedCall where
  | query (replies : Replies) (request : Query)
  | disableS2i
  | enableS2i (it : Iterator) (judy : Nat → JudyReply)

/-- One call to a running process. Nobody answers when there is none. -/
def Node.serve : Node → ServedCall → Option (Outcome × Node)
  | .stopped db, _ => some (.ignored, .stopped db)
  | .running s, .query replies request => query replies s request
  | .running s, .disableS2i => some (.done, .running s.disableS2i)
  | .running s, .enableS2i it judy => enable it judy s

namespace Iterator

/-- A process whose startup load has this iterator never takes ids that are stored. -/
def StartsFresh (it : Iterator) (db : Store) : Prop :=
  ∀ (judy : Nat → JudyReply) (s : Server),
    Node.start it judy db false = some (.done, .running s) →
      ∀ (calls : List ServedCall) (tr : List (Machine.Record Node ServedCall Outcome)) (n : Node),
        Machine.run Node.serve (.running s) calls = some (tr, n) →
          ∀ r ∈ tr, ∀ (t : Server) (replies : Replies) (request : Query),
            r.before = .running t → r.event = .query replies request → request.op = .STR2ID →
              t.disableS2iQueries = false → t.FreshIds request.strings

/-- No call that reads through this iterator loses entries without an exception. -/
structure NoSilentLoss (it : Iterator) (db : Store) : Prop where
  load : it.LoadsAll db
  dump : it.DumpsAll db
  start : it.StartsFresh db

/-! ### Loading and dumping -/

variable {it : Iterator} {db : Store}

theorem loadsAll_iff (h : it.RunsOver db) : it.LoadsAll db ↔ it.entries = db.toList := by
  constructor
  · intro hload
    rcases hload _ _ _ _ (loadInMemory_all h.valid ∅) with ⟨e, he⟩ | ⟨maxId, hresult, -, -⟩
    · cases he
    · -- the load has counted the entries that it was given
      have hlength : it.entries.length = db.toList.length := by
        simp only [Except.ok.injEq, Prod.mk.injEq] at hresult
        exact hresult.2
      exact h.inOrder.eq_of_length hlength
  · intro hall judy storage storage' result hload
    unfold loadInMemory at hload
    rw [hall] at hload
    split at hload
    · rename_i l hloop
      cases hload
      rw [loadLoop_ok hloop]
      refine Or.inr ⟨maxId 0 db.toList, ?_, rfl, isGreatest_greatestId db⟩
      rw [Nat.zero_add]
    · rename_i l f hloop
      cases hload
      obtain ⟨e, rfl⟩ := loadLoop_error hloop
      exact Or.inl ⟨e, rfl⟩

theorem dumpsAll_iff (h : it.RunsOver db) : it.DumpsAll db ↔ it.entries = db.toList := by
  constructor
  · intro hdump
    obtain ⟨rest, hrest⟩ := h.inOrder
    rcases hdump _ _ false _ (dump_all h.valid [] false) with ⟨e, he⟩ | ⟨-, hstream⟩
    · cases he
    · -- entries that were not yielded would take room in the file
      rw [← hrest, records, records, List.flatMap_append, ← List.append_assoc,
        List.self_eq_append_right] at hstream
      cases rest with
      | nil => rw [← hrest, List.append_nil]
      | cons p rest =>
        rw [List.flatMap_cons, List.append_eq_nil_iff] at hstream
        exact absurd hstream.1 (dumpEntry_ne_nil false p.1 p.2)
  · intro hall stream stream' binaryDump result hdump
    rw [dump_all h.valid, hall] at hdump
    cases hdump
    exact Or.inr ⟨rfl, rfl⟩

end Iterator

/-! ### The counter of a process that was loaded -/

/-- The counter is beyond the stored ids. -/
def Server.Ahead (s : Server) : Prop := ∀ id ∈ s.diskStorage, id.toInt < s.cnt.toInt

namespace Server.Ahead

variable {s s' : Server}

theorem freshIds (h : s.Ahead) (strings : List Bytes) : s.FreshIds strings :=
  fun id hid => Or.inl (h id hid)

/-- Whatever becomes of the batch, the counter stays ahead of it. -/
theorem write {l : Loop} {strings : List Bytes} (h : s.Ahead)
    (hl : Numbered s.memoryStorage s.cnt strings l) (reply : WriteReply) :
    Server.Ahead ⟨(DiskStorage.write reply s.diskStorage l.kvPairs).1, l.memoryStorage, l.cnt,
      false⟩ := by
  have hcnt := hl.cnt
  have hput : ∀ id ∈ putBatch s.diskStorage l.kvPairs, id.toInt < l.cnt.toInt := by
    intro id hid
    rcases (mem_putBatch_iff hl.keys_nodup).mp hid with ⟨p, hp, rfl⟩ | hid
    · have hkey := hl.key_bounds hp
      omega
    · have hlt := h id hid
      omega
  have hold : ∀ id ∈ s.diskStorage, id.toInt < l.cnt.toInt := by
    intro id hid
    have hlt := h id hid
    omega
  cases reply with
  | ok => exact hput
  | failed status applied =>
    cases applied with
    | true => exact hput
    | false => exact hold

theorem queryImpl {replies : Replies} {request : Query} {result : Except Fault Query}
    (h : s.Ahead) (hquery : s.queryImpl replies {} request = (s', result)) : s'.Ahead := by
  unfold Server.queryImpl at hquery
  split at hquery
  · split at hquery
    · cases hquery
      exact h
    · cases hquery
      exact h
  · split at hquery
    · cases hquery
      exact h
    · split at hquery
      · cases hquery
        exact h
      · rename_i l hrounds
        have hahead := h.write ((numbered_nil s.memoryStorage s.cnt).rounds hrounds) replies.write
        split at hquery
        · rename_i db f hwrite
          cases hquery
          rwa [hwrite] at hahead
        · rename_i db hwrite
          cases hquery
          rwa [hwrite] at hahead
  · cases hquery
    exact h

theorem enableS2i {it : Iterator} {judy : Nat → JudyReply} {result : Except Fault Unit}
    (h : s.Ahead) (henable : s.enableS2i it judy = (s', result)) : s'.Ahead := by
  unfold Server.enableS2i at henable
  split at henable
  · split at henable
    · cases henable
      exact h
    · cases henable
      exact h
  · cases henable
    exact h

theorem disableS2i (h : s.Ahead) : s.disableS2i.Ahead := by
  unfold Server.disableS2i
  split
  · exact h
  · exact h

end Server.Ahead

namespace Node

/-- The process of the directory, if there is one, has its counter ahead. -/
def Ahead (n : Node) : Prop := ∀ s, n = .running s → s.Ahead

section Serve

variable {n n' : Node} {c : ServedCall} {o : Outcome} {s s' : Server}

theorem queryImpl_of_query {replies : Replies} {request : Query}
    (h : query replies s request = some (o, .running s')) :
    ∃ result, s.queryImpl replies {} request = (s', result) := by
  unfold query at h
  split at h
  · cases h
    exact ⟨_, ‹_›⟩
  · cases h
    exact ⟨_, ‹_›⟩
  · cases h
  · cases h

theorem enableS2i_of_enable {it : Iterator} {judy : Nat → JudyReply}
    (h : enable it judy s = some (o, .running s')) :
    ∃ result, s.enableS2i it judy = (s', result) := by
  unfold enable at h
  split at h
  · cases h
    exact ⟨_, ‹_›⟩
  · cases h
    exact ⟨_, ‹_›⟩
  · cases h
    exact ⟨_, ‹_›⟩
  · cases h

/-- No call moves the counter back, whatever the libraries report. -/
theorem Ahead.serve (h : n.Ahead) (hserve : n.serve c = some (o, n')) : n'.Ahead := by
  rintro s' rfl
  cases n with
  | stopped db => cases hserve
  | running s =>
    have hs : s.Ahead := h s rfl
    cases c with
    | query replies request =>
      obtain ⟨result, hquery⟩ := queryImpl_of_query hserve
      exact hs.queryImpl hquery
    | disableS2i =>
      cases hserve
      exact hs.disableS2i
    | enableS2i it judy =>
      obtain ⟨result, henable⟩ := enableS2i_of_enable hserve
      exact hs.enableS2i henable

end Serve

/-- The startup sets the counter to the number after the maximum that the load returns. -/
theorem ahead_of_start {it : Iterator} {db : Store} (hload : it.LoadsAll db)
    {judy : Nat → JudyReply} {s : Server}
    (h : start it judy db false = some (.done, .running s)) : s.Ahead := by
  simp only [start, Bool.false_eq_true, if_false] at h
  split at h
  · cases h
  · cases h
  · rename_i storage maxId loaded hloaded
    split at h
    · cases h
    · rename_i cnt hcnt
      cases h
      rcases hload _ _ _ _ hloaded with ⟨e, he⟩ | ⟨m, hresult, -, hgreatest⟩
      · cases he
      · cases hresult
        intro id hid
        have hle := hgreatest.2 (Or.inr ⟨id, hid, rfl⟩)
        have hnext := NumID.increment_eq_ok.mp hcnt
        simp only
        omega

end Node

theorem Iterator.LoadsAll.startsFresh {it : Iterator} {db : Store} (h : it.LoadsAll db) :
    it.StartsFresh db := by
  intro judy s hstart calls tr n hrun r hr t replies request ht _ _ _
  have hs : (Node.running s).Ahead := by
    rintro s' ⟨⟩
    exact Node.ahead_of_start h hstart
  have hahead := (Machine.run_invariant (fun _ => True) Node.Ahead
    (fun _ hstep _ hbefore => hbefore.serve hstep) hrun (fun _ _ => trivial) hs).2 r hr
  exact (hahead.1 t ht).freshIds request.strings

/-- Of the iterator runs that LevelDB allows, exactly those that pass all entries are read
    without a silent loss. -/
theorem noSilentLoss_iff_complete (db : Store) (it : Iterator) (h : it.RunsOver db) :
    it.NoSilentLoss db ↔ it.entries = db.toList := by
  constructor
  · intro hloss
    exact (Iterator.loadsAll_iff h).mp hloss.load
  · intro hall
    have hload := (Iterator.loadsAll_iff h).mpr hall
    exact ⟨hload, (Iterator.dumpsAll_iff h).mpr hall, hload.startsFresh⟩

/-- An error behind the last entry does no harm. -/
theorem noSilentLoss_iff_complete_late_error :
    Iterator.NoSilentLoss
      ⟨[(1, [97]), (2, [98])], fun n => if n = 2 then some "IO error" else none⟩
      (((∅ : Store).insert 2 [98]).insert 1 [97]) :=
  (noSilentLoss_iff_complete _ _ ⟨by decide, by decide, by decide⟩).mpr (by decide)

/-- The second of two entries cannot be read. -/
def interrupted : Iterator :=
  ⟨[(1, [97])], fun n => if n = 1 then some "Corruption: block checksum mismatch" else none⟩

def interruptedStore : Store := ((∅ : Store).insert 1 [97]).insert 2 [98]

/-- Load and dump return as if the store ended before the unread entry, and the process
    that starts then gives the id of this entry away. -/
theorem not_noSilentLoss_interrupted :
    interrupted.RunsOver interruptedStore ∧
      loadInMemory interrupted (fun _ => {}) ∅ =
        (ExtTreeMap.insert ∅ (cstr [97]) 1, .ok (1, 1)) ∧
      dump interrupted [] false = ([49, 9, 97, 10], .ok ()) ∧
      Node.start interrupted (fun _ => {}) interruptedStore false =
        some (.done, .running ⟨interruptedStore, ExtTreeMap.insert ∅ (cstr [97]) 1, 2, false⟩) ∧
      Node.query {} ⟨interruptedStore, ExtTreeMap.insert ∅ (cstr [97]) 1, 2, false⟩
          { op := .STR2ID, strings := [[99]] } =
        some (.response { op := .STR2ID, ids := [2] }, .running
          ⟨interruptedStore.insert 2 [99],
            ExtTreeMap.insert (ExtTreeMap.insert ∅ (cstr [97]) 1) (cstr [99]) 2, 3, false⟩) ∧
      ¬ interrupted.NoSilentLoss interruptedStore := by
  have hload : loadInMemory interrupted (fun _ => {}) ∅ =
      (ExtTreeMap.insert ∅ (cstr [97]) 1, .ok (1, 1)) := by
    rfl
  refine ⟨⟨by decide, by decide, by decide⟩, hload, by decide, by decide, by decide, ?_⟩
  intro hloss
  rcases hloss.load _ _ _ _ hload with ⟨e, he⟩ | ⟨maxId, hresult, -, -⟩
  · cases he
  · simp only [Except.ok.injEq, Prod.mk.injEq] at hresult
    exact absurd hresult.2 (by decide)

end Numerator
