import Numerator.DiskStorage

/-!
# The reply to an ID2STR query

`lookup` tells a missing string apart from an empty one by a list of positions,
which the client reads with a counter of its own. Both counters are 32 bits
wide. On lists that Thrift can carry neither overflows, and the client gets back
what the database has for every key.
-/

namespace Numerator

open Std FiniteMap

/-- A `FailureIdx` as the programs count it. -/
abbrev FailureIdx32 := Int32

/-- `idx++` -/
def FailureIdx32.increment (idx : FailureIdx32) : Except Fault FailureIdx32 :=
  if idx = Int32.maxValue then .error (.undefined .signedOverflow) else .ok (idx + 1)

theorem FailureIdx32.increment_of_lt (idx : FailureIdx32) (h : idx.toInt < 2 ^ 31 - 1) :
    ∃ next, increment idx = .ok next ∧ next.toInt = idx.toInt + 1 := by
  have hne : idx ≠ Int32.maxValue := by
    rintro rfl
    rw [Int32.toInt_maxValue] at h
    omega
  refine ⟨idx + 1, if_neg hne, ?_⟩
  have hge := idx.le_toInt
  rw [Int32.toInt_add, show (1 : Int32).toInt = 1 from rfl, Int.bmod_eq_of_le] <;> omega

namespace DiskStorage

/-! ### Writing the reply -/

/-- The loop of `lookup` with its 32-bit counter. -/
def lookupLoop32 (get : Nat → Option String) (db : Store) :
    Nat → FailureIdx32 → List Bytes → List FailureIdx32 → List NumID →
      Except Fault (List Bytes × List FailureIdx32)
  | _, _, values, failures, [] => .ok (values, failures)
  | n, failureIdx, values, failures, k :: keys =>
    match get n with
    | some status => .error (.exc (.get status))
    | none =>
      match (match db[k]? with
        | some value => (values ++ [value], failures)
        | none => (values ++ [[]], failures ++ [failureIdx])) with
      | (values, failures) =>
        match FailureIdx32.increment failureIdx with
        | .error f => .error f
        | .ok failureIdx => lookupLoop32 get db (n + 1) failureIdx values failures keys

def lookup32 (get : Nat → Option String) (db : Store) (keys : List NumID)
    (_values : List Bytes) (_failures : List FailureIdx32) :
    Except Fault (List Bytes × List FailureIdx32) :=
  lookupLoop32 get db 0 0 [] [] keys

/-- On short lists the loop counts like the one with an unbounded counter, whatever `Get`
    reports. -/
theorem lookupLoop32_refines (get : Nat → Option String) (db : Store) (n : Nat)
    (failureIdx : FailureIdx32) (values : List Bytes) (failures : List FailureIdx32)
    (keys : List NumID) (h : failureIdx.toInt + keys.length ≤ 2 ^ 31 - 1) :
    (lookupLoop32 get db n failureIdx values failures keys).map
        (fun r => (r.1, r.2.map Int32.toInt)) =
      lookupLoop get db n failureIdx.toInt values (failures.map Int32.toInt) keys := by
  induction keys generalizing n failureIdx values failures with
  | nil => rfl
  | cons k keys ih =>
    rw [List.length_cons] at h
    obtain ⟨next, hnext, hnextInt⟩ := FailureIdx32.increment_of_lt failureIdx (by omega)
    have hrest : next.toInt + keys.length ≤ 2 ^ 31 - 1 := by omega
    rw [lookupLoop32, lookupLoop]
    rcases get n with _ | status
    · rcases db[k]? with _ | value
      · simp only [hnext, ih _ _ _ _ hrest, hnextInt, List.map_append, List.map_cons,
          List.map_nil]
      · simp only [hnext, ih _ _ _ _ hrest, hnextInt]
    · rfl

/-- So the 32-bit counter loses nothing on the lists of a request. -/
theorem lookup32_refines (get : Nat → Option String) (db : Store) (keys : List NumID)
    (values : List Bytes) (failures : List FailureIdx32) (h : keys.length ≤ 2 ^ 31 - 1) :
    (lookup32 get db keys values failures).map (fun r => (r.1, r.2.map Int32.toInt)) =
      lookup get db keys values (failures.map Int32.toInt) :=
  lookupLoop32_refines get db 0 0 [] [] keys (by simpa using h)

theorem le_of_mem_missing {db : Store} {start : Int} {keys : List NumID} {i : Int}
    (h : i ∈ missing db start keys) : start ≤ i := by
  obtain ⟨p, k, rfl, -, -⟩ := mem_missing.mp h
  exact Int.le_add_of_nonneg_right (Int.natCast_nonneg p)

theorem pairwise_missing (db : Store) (start : Int) (keys : List NumID) :
    (missing db start keys).Pairwise (· < ·) := by
  induction keys generalizing start with
  | nil => exact List.Pairwise.nil
  | cons k keys ih =>
    rw [missing]
    split
    · exact ih (start + 1)
    · refine List.pairwise_cons.mpr ⟨?_, ih (start + 1)⟩
      intro i hi
      exact Int.lt_of_add_one_le (le_of_mem_missing hi)

/-- The failures of a whole list name exactly the positions of the keys without a value. -/
theorem natCast_mem_missing {db : Store} {keys : List NumID} {j : Nat} {k : NumID}
    (hj : keys[j]? = some k) : (j : Int) ∈ missing db 0 keys ↔ db[k]? = none := by
  rw [mem_missing]
  constructor
  · rintro ⟨p, k', hp, hk', hnone⟩
    rw [zero_add, Nat.cast_inj] at hp
    subst hp
    rw [hj] at hk'
    cases hk'
    exact hnone
  · intro hnone
    exact ⟨j, k, (zero_add _).symm, hj, hnone⟩

end DiskStorage

/-! ### Reading the reply -/

/-- The loop of `do_query` over the strings of a result: which of them it takes for missing. -/
def readStrings (failures : List FailureIdx) :
    FailureIdx32 → List Bytes → Except Fault (List (Option Bytes))
  | _, [] => .ok []
  | idx, v :: strings =>
    match FailureIdx32.increment idx with
    | .error f => .error f
    | .ok next =>
      (readStrings failures next strings).map fun rest =>
        (if idx.toInt ∈ failures then none else some v) :: rest

theorem readStrings_eq (failures : List FailureIdx) (idx : FailureIdx32) (strings : List Bytes)
    (h : idx.toInt + strings.length ≤ 2 ^ 31 - 1) :
    readStrings failures idx strings = .ok (strings.mapIdx fun (j : Nat) v =>
      if idx.toInt + j ∈ failures then none else some v) := by
  induction strings generalizing idx with
  | nil => rfl
  | cons v strings ih =>
    rw [List.length_cons] at h
    obtain ⟨next, hnext, hnextInt⟩ := FailureIdx32.increment_of_lt idx (by omega)
    have hrest : next.toInt + strings.length ≤ 2 ^ 31 - 1 := by omega
    have hshift : ∀ j : Nat, next.toInt + (j : Int) = idx.toInt + ((j + 1 : Nat) : Int) := by
      intro j
      omega
    simp only [readStrings, hnext, ih next hrest, Except.map, List.mapIdx_cons, hshift,
      Nat.cast_zero, add_zero]

/-- The client reads back what the database has, if its failures are those of the keys. -/
theorem readStrings_missing (db : Store) (keys : List NumID)
    (hkeys : keys.length ≤ 2 ^ 31 - 1) :
    readStrings (DiskStorage.missing db 0 keys) 0 (keys.map fun k => db[k]?.getD []) =
      .ok (keys.map fun k => db[k]?) := by
  rw [readStrings_eq _ _ _ (by simpa using hkeys), Except.ok.injEq]
  apply List.ext_getElem?
  intro j
  rw [List.getElem?_mapIdx, List.getElem?_map, List.getElem?_map]
  rcases hj : keys[j]? with _ | k
  · rfl
  · simp only [Option.map_some, Int32.toInt_zero, zero_add, DiskStorage.natCast_mem_missing hj]
    rcases db[k]? with _ | value <;> simp

/-- What `lookup` writes for a list of keys that Thrift can carry, `do_query` reads back as
    the strings of the database. -/
theorem lookup_reply_exact (db : Store) (keys : List NumID) (hkeys : keys.length ≤ 2 ^ 31 - 1)
    (get : Nat → Option String) (hget : ∀ n, n < keys.length → get n = none)
    (values₀ : List Bytes) (failures₀ : List FailureIdx32) :
    ∃ values failures,
      DiskStorage.lookup32 get db keys values₀ failures₀ = .ok (values, failures) ∧
      values.length = keys.length ∧
      (failures.map Int32.toInt).Pairwise (· < ·) ∧
      readStrings (failures.map Int32.toInt) 0 values = .ok (keys.map fun k => db[k]?) := by
  have hrefines := DiskStorage.lookup32_refines get db keys values₀ failures₀ hkeys
  rw [DiskStorage.lookup_all db keys _ _ hget] at hrefines
  rcases hlookup : DiskStorage.lookup32 get db keys values₀ failures₀ with f | ⟨values, failures⟩
  · rw [hlookup] at hrefines
    cases hrefines
  · rw [hlookup] at hrefines
    simp only [Except.map, Except.ok.injEq, Prod.mk.injEq] at hrefines
    obtain ⟨rfl, hfailures⟩ := hrefines
    refine ⟨_, failures, rfl, by simp, ?_, ?_⟩
    · rw [hfailures]
      exact DiskStorage.pairwise_missing db _ keys
    · rw [hfailures]
      exact readStrings_missing db keys hkeys

/-- A stored empty string, a key twice, and a missing key between them. -/
theorem lookup_reply_exact_empty_value :
    ∃ values failures,
      DiskStorage.lookup32 (fun _ => none) ((∅ : Store).insert 1 [] |>.insert 3 [97])
          [1, 2, 1, 3] [[98]] [7] = .ok (values, failures) ∧
        values.length = 4 ∧ (failures.map Int32.toInt).Pairwise (· < ·) ∧
          readStrings (failures.map Int32.toInt) 0 values =
            .ok [some [], none, some [], some [97]] := by
  have hread : ([1, 2, 1, 3] : List NumID).map (fun k =>
      ((∅ : Store).insert 1 [] |>.insert 3 [97])[k]?) =
      [some [], none, some [], some [97]] := by
    decide
  rw [← hread]
  exact lookup_reply_exact _ [1, 2, 1, 3] (by decide) _ (fun _ _ => rfl) [[98]] [7]

end Numerator
