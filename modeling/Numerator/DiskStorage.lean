import Numerator.MemoryStorage

/-!
# The disk storage: writing, loading and looking up

`DiskStorage::write`, `load_in_memory` and `lookup` of `disk_storage.cpp`. The
database is a finite map from ids to byte strings whose iterator follows the
byte order of the keys. What LevelDB and Judy report during a call is an
argument of the call, so the error paths are part of the model. Read options
only steer LevelDB's cache and are left out.
-/

namespace Numerator

open Std FiniteMap

structure KVPair where
  key : NumID
  value : Bytes
deriving DecidableEq, Repr

/-- The content of the database. -/
abbrev Store := ExtTreeMap NumID Bytes NumID.order

/-- How LevelDB answers a batch write. A failing write is atomic too, but whether the
    batch survives in the log is not known. -/
inductive WriteReply where
  | ok
  | failed (status : String) (applied : Bool)
deriving DecidableEq, Repr

/-- One iterator run: the entries it yields before it becomes invalid, and the error
    that `status()` reports when `n` entries have been passed, if it reports one. -/
structure Iterator where
  entries : List (NumID × Bytes)
  status : Nat → Option String

namespace DiskStorage

/-! ### `write` -/

def putBatch (db : Store) (kvPairs : List KVPair) : Store :=
  putAll KVPair.key KVPair.value db kvPairs

def write (reply : WriteReply) (db : Store) (kvPairs : List KVPair) :
    Store × Except Fault Unit :=
  match reply with
  | .ok => (putBatch db kvPairs, .ok ())
  | .failed status applied =>
      (if applied then putBatch db kvPairs else db, .error (.exc (.write status)))

/-! ### `load_in_memory` -/

/-- The variables of the loop of `load_in_memory`. -/
structure Loading where
  storage : MemoryStorage
  loaded : Nat
  maxId : NumID

/-- The loop over the iterator. An exception leaves behind what was inserted before it. -/
def loadLoop (status : Nat → Option String) (judy : Nat → JudyReply) :
    Loading → List (NumID × Bytes) → Loading × Except Fault Unit
  | l, [] => (l, .ok ())
  | l, (currentId, value) :: rest =>
    match status l.loaded with
    | some text => (l, .error (.exc (.iteration text)))
    | none =>
      match MemoryStorage.insert (judy l.loaded) l.storage value currentId with
      | .error f => (l, .error f)
      | .ok storage =>
        loadLoop status judy
          { storage := storage
            loaded := l.loaded + 1
            maxId := if currentId > l.maxId then currentId else l.maxId } rest

/-- The storage afterwards, and the maximal id together with the number of entries that
    is written to the log. -/
def loadInMemory (it : Iterator) (judy : Nat → JudyReply) (storage : MemoryStorage) :
    MemoryStorage × Except Fault (NumID × Nat) :=
  match loadLoop it.status judy ⟨storage, 0, 0⟩ it.entries with
  | (l, .ok ()) => (l.storage, .ok (l.maxId, l.loaded))
  | (l, .error f) => (l.storage, .error f)

/-- A run over a list without an error has none at its head and none behind it. -/
theorem status_cons {α : Type*} {status : Nat → Option String} {n : Nat} {a : α} {l : List α}
    (h : ∀ i, i < (a :: l).length → status (n + i) = none) :
    status n = none ∧ ∀ i, i < l.length → status (n + 1 + i) = none := by
  refine ⟨h 0 (by simp), ?_⟩
  intro i hi
  rw [Nat.add_assoc, Nat.add_comm 1]
  exact h (i + 1) (by simpa using hi)

/-- The iterator of a database that can be read without an error. -/
def newIterator (db : Store) : Iterator := ⟨db.toList, fun _ => none⟩

/-- The insertions of a whole load. -/
def insertAll (storage : MemoryStorage) (entries : List (NumID × Bytes)) : MemoryStorage :=
  putAll (fun p => cstr p.2) Prod.fst storage entries

/-- The running maximum of a whole load. -/
def maxId (init : NumID) (entries : List (NumID × Bytes)) : NumID :=
  entries.foldl (fun m p => if p.1 > m then p.1 else m) init

section Load

variable {status : Nat → Option String} {judy : Nat → JudyReply} {l l' : Loading}
variable {entries : List (NumID × Bytes)}

theorem loadLoop_ok (h : loadLoop status judy l entries = (l', .ok ())) :
    l' = ⟨insertAll l.storage entries, l.loaded + entries.length, maxId l.maxId entries⟩ := by
  induction entries generalizing l with
  | nil =>
    cases h
    rfl
  | cons p entries ih =>
    obtain ⟨currentId, value⟩ := p
    rw [loadLoop] at h
    split at h
    · cases h
    · split at h
      · cases h
      · rename_i storage hins
        rw [ih h, MemoryStorage.insert_eq_ok hins]
        simp only [List.length_cons, Nat.add_assoc, Nat.add_comm 1]
        rfl

theorem loadLoop_error {f : Fault} (h : loadLoop status judy l entries = (l', .error f)) :
    ∃ e, f = .exc e := by
  induction entries generalizing l with
  | nil => cases h
  | cons p entries ih =>
    obtain ⟨currentId, value⟩ := p
    rw [loadLoop] at h
    split at h
    · cases h
      exact ⟨_, rfl⟩
    · split at h
      · rename_i f' hins
        cases h
        exact MemoryStorage.insert_eq_error hins
      · exact ih h

/-- However the loop ends, it has inserted the entries up to some point. -/
theorem loadLoop_storage (status : Nat → Option String) (judy : Nat → JudyReply) (l : Loading)
    (entries : List (NumID × Bytes)) :
    ∃ n, (loadLoop status judy l entries).1.storage = insertAll l.storage (entries.take n) := by
  induction entries generalizing l with
  | nil => exact ⟨0, rfl⟩
  | cons p entries ih =>
    obtain ⟨currentId, value⟩ := p
    rw [loadLoop]
    split
    · exact ⟨0, rfl⟩
    · split
      · exact ⟨0, rfl⟩
      · rename_i storage hins
        obtain ⟨n, hn⟩ := ih ⟨storage, l.loaded + 1,
          if currentId > l.maxId then currentId else l.maxId⟩
        refine ⟨n + 1, ?_⟩
        rw [hn, MemoryStorage.insert_eq_ok hins]
        rfl

/-- Without errors the loop runs over all entries. -/
theorem loadLoop_all (l : Loading) (entries : List (NumID × Bytes))
    (h : ∀ i, i < entries.length → status (l.loaded + i) = none) :
    loadLoop status (fun _ => {}) l entries =
      (⟨insertAll l.storage entries, l.loaded + entries.length, maxId l.maxId entries⟩,
        .ok ()) := by
  induction entries generalizing l with
  | nil => rfl
  | cons p entries ih =>
    obtain ⟨currentId, value⟩ := p
    obtain ⟨hhead, htail⟩ := status_cons h
    rw [loadLoop, hhead]
    simp only [MemoryStorage.insert_ok]
    rw [ih _ htail]
    simp only [List.length_cons, Nat.add_assoc, Nat.add_comm 1]
    rfl

theorem loadInMemory_all {it : Iterator}
    (h : ∀ i, i < it.entries.length → it.status i = none) (storage : MemoryStorage) :
    loadInMemory it (fun _ => {}) storage =
      (insertAll storage it.entries, .ok (maxId 0 it.entries, it.entries.length)) := by
  rw [loadInMemory, loadLoop_all _ _ (by simpa using h)]
  simp only [Nat.zero_add]

theorem loadInMemory_newIterator (db : Store) (storage : MemoryStorage) :
    loadInMemory (newIterator db) (fun _ => {}) storage =
      (insertAll storage db.toList, .ok (maxId 0 db.toList, db.toList.length)) :=
  loadInMemory_all (fun _ _ => rfl) storage

end Load

/-! ### The greatest id -/

theorem maxId_cons (init : NumID) (p : NumID × Bytes) (entries : List (NumID × Bytes)) :
    maxId init (p :: entries) = maxId (if p.1 > init then p.1 else init) entries := rfl

theorem le_maxId (init : NumID) (entries : List (NumID × Bytes)) :
    init.toInt ≤ (maxId init entries).toInt ∧
      ∀ p ∈ entries, p.1.toInt ≤ (maxId init entries).toInt := by
  induction entries generalizing init with
  | nil => exact ⟨le_rfl, by simp⟩
  | cons p entries ih =>
    rw [maxId_cons, List.forall_mem_cons]
    by_cases hp : p.1 > init
    · rw [if_pos hp]
      obtain ⟨hle, hall⟩ := ih p.1
      have hlt : init.toInt < p.1.toInt := Int64.lt_iff_toInt_lt.mp hp
      exact ⟨by omega, hle, hall⟩
    · rw [if_neg hp]
      obtain ⟨hle, hall⟩ := ih init
      have hge : p.1.toInt ≤ init.toInt := by
        rw [gt_iff_lt, Int64.lt_iff_toInt_lt] at hp
        omega
      exact ⟨hle, by omega, hall⟩

theorem maxId_mem (init : NumID) (entries : List (NumID × Bytes)) :
    maxId init entries = init ∨ ∃ p ∈ entries, p.1 = maxId init entries := by
  induction entries generalizing init with
  | nil => exact Or.inl rfl
  | cons p entries ih =>
    rw [maxId_cons]
    by_cases hp : p.1 > init
    · rw [if_pos hp]
      rcases ih p.1 with h | ⟨q, hq, h⟩
      · exact Or.inr ⟨p, List.mem_cons_self, h.symm⟩
      · exact Or.inr ⟨q, List.mem_cons_of_mem p hq, h⟩
    · rw [if_neg hp]
      rcases ih init with h | ⟨q, hq, h⟩
      · exact Or.inl h
      · exact Or.inr ⟨q, List.mem_cons_of_mem p hq, h⟩

/-- What `load_in_memory` returns for a database that it reads to the end. -/
def greatestId (db : Store) : NumID := maxId 0 db.toList

/-- `greatestId` is the maximum of 0 and the stored ids. -/
theorem isGreatest_greatestId (db : Store) :
    IsGreatest {x : Int | x = 0 ∨ ∃ id ∈ db, id.toInt = x} (greatestId db).toInt := by
  obtain ⟨hzero, hle⟩ := le_maxId 0 db.toList
  constructor
  · rcases maxId_mem 0 db.toList with h | ⟨p, hp, h⟩
    · left
      rw [greatestId, h]
      rfl
    · right
      refine ⟨p.1, ?_, by rw [h, greatestId]⟩
      obtain ⟨id, value⟩ := p
      rw [ExtTreeMap.mem_iff_isSome_getElem?,
        ExtTreeMap.mem_toList_iff_getElem?_eq_some.mp hp]
      rfl
  · rintro x (rfl | ⟨id, hid, rfl⟩)
    · exact hzero
    · exact hle (id, db[id]) (ExtTreeMap.mem_toList_iff_getElem?_eq_some.mpr
        (getElem?_pos db id hid))

/-! ### `lookup` -/

/-- The loop of `lookup`; `get n` is the error that the `n`-th `Get` reports, if any. -/
def lookupLoop (get : Nat → Option String) (db : Store) :
    Nat → FailureIdx → List Bytes → List FailureIdx → List NumID →
      Except Fault (List Bytes × List FailureIdx)
  | _, _, values, failures, [] => .ok (values, failures)
  | n, failureIdx, values, failures, k :: keys =>
    match get n with
    | some status => .error (.exc (.get status))
    | none =>
      match db[k]? with
      | some value => lookupLoop get db (n + 1) (failureIdx + 1) (values ++ [value]) failures keys
      | none =>
        lookupLoop get db (n + 1) (failureIdx + 1) (values ++ [[]]) (failures ++ [failureIdx]) keys

/-- The previous contents of both output vectors are cleared first. -/
def lookup (get : Nat → Option String) (db : Store) (keys : List NumID)
    (_values : List Bytes) (_failures : List FailureIdx) :
    Except Fault (List Bytes × List FailureIdx) :=
  lookupLoop get db 0 0 [] [] keys

/-- The positions, counted from `start`, of the keys that are not stored. -/
def missing (db : Store) : FailureIdx → List NumID → List FailureIdx
  | _, [] => []
  | start, k :: keys =>
    match db[k]? with
    | some _ => missing db (start + 1) keys
    | none => start :: missing db (start + 1) keys

theorem lookupLoop_eq {get : Nat → Option String} (db : Store) (n : Nat)
    (failureIdx : FailureIdx) (values : List Bytes) (failures : List FailureIdx)
    (keys : List NumID) (h : ∀ i, i < keys.length → get (n + i) = none) :
    lookupLoop get db n failureIdx values failures keys =
      .ok (values ++ keys.map (fun k => db[k]?.getD []),
        failures ++ missing db failureIdx keys) := by
  induction keys generalizing n failureIdx values failures with
  | nil => simp [lookupLoop, missing]
  | cons k keys ih =>
    obtain ⟨hhead, htail⟩ := status_cons h
    rw [lookupLoop, hhead, missing]
    rcases hk : db[k]? with _ | value
    · simp only [ih _ _ _ _ htail, List.map_cons, hk, List.append_assoc]
      rfl
    · simp only [ih _ _ _ _ htail, List.map_cons, hk, List.append_assoc]
      rfl

/-- As long as every `Get` says whether the key is stored, the lookup goes through. -/
theorem lookup_all {get : Nat → Option String} (db : Store) (keys : List NumID)
    (values : List Bytes) (failures : List FailureIdx)
    (h : ∀ i, i < keys.length → get i = none) :
    lookup get db keys values failures =
      .ok (keys.map (fun k => db[k]?.getD []), missing db 0 keys) := by
  rw [lookup, lookupLoop_eq _ _ _ _ _ _ (by simpa using h)]
  rfl

theorem lookup_eq (db : Store) (keys : List NumID) (values : List Bytes)
    (failures : List FailureIdx) :
    lookup (fun _ => none) db keys values failures =
      .ok (keys.map (fun k => db[k]?.getD []), missing db 0 keys) :=
  lookup_all db keys values failures fun _ _ => rfl

theorem get_of_lookupLoop {get : Nat → Option String} {db : Store} {n : Nat} {i : FailureIdx}
    {values : List Bytes} {failures : List FailureIdx} {keys : List NumID}
    {result : List Bytes × List FailureIdx}
    (h : lookupLoop get db n i values failures keys = .ok result) :
    ∀ j, j < keys.length → get (n + j) = none := by
  induction keys generalizing n i values failures with
  | nil => simp
  | cons k keys ih =>
    rw [lookupLoop] at h
    rcases hget : get n with _ | status
    · have hrest : ∀ j, j < keys.length → get (n + 1 + j) = none := by
        rcases hk : db[k]? with _ | value <;> simp only [hget, hk] at h <;> exact ih h
      rintro (_ | j) hj
      · exact hget
      · rw [show n + (j + 1) = n + 1 + j by omega]
        exact hrest j (by simpa using hj)
    · simp [hget] at h

/-- A lookup that returns has looked up every key. -/
theorem lookup_eq_ok {get : Nat → Option String} {db : Store} {keys : List NumID}
    {values : List Bytes} {failures : List FailureIdx} {result : List Bytes × List FailureIdx}
    (h : lookup get db keys values failures = .ok result) :
    result = (keys.map (fun k => db[k]?.getD []), missing db 0 keys) := by
  have hget := get_of_lookupLoop h
  rw [lookup_all db keys values failures (by simpa using hget)] at h
  exact (Except.ok.inj h).symm

theorem mem_missing {db : Store} {start : FailureIdx} {keys : List NumID} {i : FailureIdx} :
    i ∈ missing db start keys ↔
      ∃ (p : Nat) (k : NumID), i = start + p ∧ keys[p]? = some k ∧ db[k]? = none := by
  induction keys generalizing start with
  | nil => simp [missing]
  | cons k keys ih =>
    have hshift : i ∈ missing db (start + 1) keys ↔
        ∃ (p : Nat) (k' : NumID), i = start + ↑(p + 1) ∧ keys[p]? = some k' ∧
          db[k']? = none := by
      rw [ih]
      simp only [Nat.cast_add, Nat.cast_one, add_assoc, add_comm (1 : Int)]
    rw [missing]
    constructor
    · intro h
      by_cases hhead : i = start ∧ db[k]? = none
      · exact ⟨0, k, by simpa using hhead.1, rfl, hhead.2⟩
      · have htail : i ∈ missing db (start + 1) keys := by
          rcases hk : db[k]? with _ | value
          · simp only [hk, List.mem_cons] at h
            exact h.resolve_left fun heq => hhead ⟨heq, hk⟩
          · simpa only [hk] using h
        obtain ⟨p, k', hi, hp, hnone⟩ := hshift.mp htail
        exact ⟨p + 1, k', hi, hp, hnone⟩
    · rintro ⟨p, k', hi, hp, hnone⟩
      cases p with
      | zero =>
        cases hp
        simp only [hnone, List.mem_cons]
        exact Or.inl (by simpa using hi)
      | succ p =>
        have htail := hshift.mpr ⟨p, k', hi, hp, hnone⟩
        rcases hk : db[k]? with _ | value
        · simp only [List.mem_cons]
          exact Or.inr htail
        · exact htail

theorem length_missing_le (db : Store) (start : FailureIdx) (keys : List NumID) :
    (missing db start keys).length ≤ keys.length := by
  induction keys generalizing start with
  | nil => exact le_rfl
  | cons k keys ih =>
    have hrest := ih (start + 1)
    rw [missing, List.length_cons]
    split
    · omega
    · rw [List.length_cons]
      omega

theorem missing_eq_nil {db : Store} {start : FailureIdx} {keys : List NumID}
    (h : ∀ k ∈ keys, db[k]? ≠ none) : missing db start keys = [] := by
  rw [List.eq_nil_iff_forall_not_mem]
  intro i hi
  obtain ⟨p, k, -, hp, hnone⟩ := mem_missing.mp hi
  exact h k (List.mem_of_getElem? hp) hnone

end DiskStorage

end Numerator
