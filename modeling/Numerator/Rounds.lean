import Numerator.Handler

/-!
# What the loop of a STR2ID query does

The loop threads the memory map, the counter, the pending batch and the answer
through the strings of a request. `Numbered` is its invariant: the memory is the
old one with the pending pairs put on top, the pending ids are consecutive from
the old counter, the pending strings are new and pairwise different as C
strings, and every answered id is the one in memory.
-/

namespace Numerator

open Std FiniteMap

namespace Server

/-- The pending pairs, put into a memory map under their C strings. -/
def putPending (m : MemoryStorage) (kvPairs : List KVPair) : MemoryStorage :=
  putAll (fun p => cstr p.value) KVPair.key m kvPairs

/-- The loop has numbered the strings `done`, starting from memory `m` and counter `c`
    with nothing pending. -/
structure Numbered (m : MemoryStorage) (c : NumID) (done : List Bytes) (l : Loop) : Prop where
  memory : l.memoryStorage = putPending m l.kvPairs
  keys : l.kvPairs.map (fun p => p.key.toInt) =
    (List.range l.kvPairs.length).map fun j : Nat => c.toInt + j
  cnt : l.cnt.toInt = c.toInt + l.kvPairs.length
  distinct : (l.kvPairs.map fun p => cstr p.value).Nodup
  fresh : ∀ p ∈ l.kvPairs, m[cstr p.value]? = none
  requested : ∀ p ∈ l.kvPairs, p.value ∈ done
  ids : l.ids.map some = done.map fun s => l.memoryStorage[cstr s]?

theorem numbered_nil (m : MemoryStorage) (c : NumID) : Numbered m c [] ⟨m, c, [], []⟩ where
  memory := rfl
  keys := rfl
  cnt := by simp
  distinct := List.nodup_nil
  fresh := by simp
  requested := by simp
  ids := rfl

namespace Numbered

variable {m : MemoryStorage} {c : NumID} {done : List Bytes} {l l' : Loop}

theorem mem_iff (h : Numbered m c done l) {k : CString} {id : NumID} :
    l.memoryStorage[k]? = some id ↔
      (∃ p ∈ l.kvPairs, cstr p.value = k ∧ p.key = id) ∨ m[k]? = some id := by
  rw [h.memory, putPending, getElem?_putAll_eq_some h.distinct]
  constructor
  · rintro (hp | ⟨-, hm⟩)
    · exact Or.inl hp
    · exact Or.inr hm
  · rintro (hp | hm)
    · exact Or.inl hp
    · refine Or.inr ⟨?_, hm⟩
      rintro p hp rfl
      rw [h.fresh p hp] at hm
      cases hm

theorem memory_eq_none (h : Numbered m c done l) {k : CString} :
    l.memoryStorage[k]? = none ↔ (∀ p ∈ l.kvPairs, cstr p.value ≠ k) ∧ m[k]? = none := by
  rw [h.memory, putPending, getElem?_putAll_eq_none]

theorem key_bounds (h : Numbered m c done l) {p : KVPair} (hp : p ∈ l.kvPairs) :
    c.toInt ≤ p.key.toInt ∧ p.key.toInt < c.toInt + l.kvPairs.length := by
  have hmem := List.mem_map_of_mem (f := fun p : KVPair => p.key.toInt) hp
  rw [h.keys, List.mem_map] at hmem
  obtain ⟨j, hj, heq⟩ := hmem
  rw [List.mem_range] at hj
  omega

/-- Every id of the allocated range is pending. -/
theorem exists_key (h : Numbered m c done l) {x : Int} (hle : c.toInt ≤ x)
    (hlt : x < c.toInt + l.kvPairs.length) : ∃ p ∈ l.kvPairs, p.key.toInt = x := by
  have hmem : x ∈ l.kvPairs.map fun p => p.key.toInt := by
    rw [h.keys, List.mem_map]
    exact ⟨(x - c.toInt).toNat, List.mem_range.mpr (by omega), by omega⟩
  exact List.mem_map.mp hmem

theorem keys_nodup (h : Numbered m c done l) : (l.kvPairs.map KVPair.key).Nodup := by
  have hint : (l.kvPairs.map fun p => p.key.toInt).Nodup := by
    rw [h.keys]
    exact List.nodup_range.map fun i j hij => by simpa using hij
  rw [show (fun p : KVPair => p.key.toInt) = Int64.toInt ∘ KVPair.key from rfl,
    ← List.map_map] at hint
  exact hint.of_map _

/-- The ids answered so far are in memory. -/
theorem mem_ids (h : Numbered m c done l) {s : Bytes} {id : NumID}
    (hp : (s, id) ∈ done.zip l.ids) : l.memoryStorage[cstr s]? = some id := by
  obtain ⟨j, hj⟩ := List.mem_iff_getElem?.mp hp
  rw [List.getElem?_zip_eq_some] at hj
  have hids := congrArg (fun xs => xs[j]?) h.ids
  simp only [List.getElem?_map, hj.1, hj.2, Option.map_some, Option.some.injEq] at hids
  exact hids.symm

theorem length_ids (h : Numbered m c done l) : l.ids.length = done.length := by
  simpa using congrArg List.length h.ids

/-- Every numbered string is in memory afterwards. -/
theorem isSome_of_mem (h : Numbered m c done l) {s : Bytes} (hs : s ∈ done) :
    ∃ id, (s, id) ∈ done.zip l.ids ∧ l.memoryStorage[cstr s]? = some id := by
  obtain ⟨j, hj⟩ := List.mem_iff_getElem?.mp hs
  have hlt : j < l.ids.length := by
    rw [h.length_ids]
    exact (List.getElem?_eq_some_iff.mp hj).1
  have hzip : (s, l.ids[j]) ∈ done.zip l.ids :=
    List.mem_iff_getElem?.mpr ⟨j, List.getElem?_zip_eq_some.mpr
      ⟨hj, List.getElem?_eq_getElem hlt⟩⟩
  exact ⟨l.ids[j], hzip, h.mem_ids hzip⟩

/-- One round keeps the invariant. -/
theorem round {reply : JudyReply} {str : Bytes} (h : Numbered m c done l)
    (hround : Server.round reply l str = .ok l') : Numbered m c (done ++ [str]) l' := by
  unfold Server.round at hround
  rcases hfind : MemoryStorage.find reply l.memoryStorage str l.cnt with f | r
  · simp [hfind] at hround
  · simp only [hfind, Except.ok.injEq] at hround
    subst hround
    rcases MemoryStorage.find_cases hfind with
      ⟨hknown, hdata, hcounter, hins⟩ | ⟨hnew, hdata, hcounter, hins, hid⟩
    · simp only [hdata, hcounter, hins]
      refine ⟨h.memory, h.keys, h.cnt, h.distinct, h.fresh, ?_, ?_⟩
      · intro p hp
        exact List.mem_append_left _ (h.requested p hp)
      · simp [h.ids, hknown]
    · simp only [hdata, hins, hid, if_true]
      have hnone := h.memory_eq_none.mp hnew
      refine ⟨?_, ?_, ?_, ?_, ?_, ?_, ?_⟩
      · simp only [putPending, putAll_concat]
        rw [h.memory, putPending]
      · simp only [List.map_append, List.map_cons, List.map_nil, List.length_append,
          List.length_singleton, List.range_succ, h.keys, h.cnt]
      · rw [hcounter, h.cnt, List.length_append, List.length_singleton]
        push_cast
        ring
      · rw [List.map_append, List.nodup_append]
        refine ⟨h.distinct, by simp, ?_⟩
        rintro k hk k' hk' rfl
        obtain ⟨p, hp, rfl⟩ := List.mem_map.mp hk
        exact hnone.1 p hp (List.mem_singleton.mp hk')
      · intro p hp
        rcases List.mem_append.mp hp with hp | hp
        · exact h.fresh p hp
        · rw [List.mem_singleton.mp hp]
          exact hnone.2
      · intro p hp
        rcases List.mem_append.mp hp with hp | hp
        · exact List.mem_append_left _ (h.requested p hp)
        · rw [List.mem_singleton.mp hp]
          simp
      · -- the insertion does not touch the strings numbered before
        have hsame : (done.map fun s =>
              (ExtTreeMap.insert l.memoryStorage (cstr str) l.cnt)[cstr s]?) =
            done.map fun s => l.memoryStorage[cstr s]? := by
          apply List.map_congr_left
          intro s hs
          obtain ⟨id, -, hsome⟩ := h.isSome_of_mem hs
          rw [getElem?_insert_of_ne]
          intro heq
          rw [← heq, hnew] at hsome
          cases hsome
        simp [hsame, h.ids]

theorem rounds {judy : Nat → JudyReply} {i : Nat} {strings : List Bytes}
    (h : Numbered m c done l) (hrounds : Server.rounds judy i l strings = .ok l') :
    Numbered m c (done ++ strings) l' := by
  induction strings generalizing i l done with
  | nil =>
    cases hrounds
    simpa using h
  | cons str strings ih =>
    rw [Server.rounds] at hrounds
    split at hrounds
    · cases hrounds
    · rename_i l₁ hround
      simpa using ih (h.round hround) hrounds

end Numbered

/-! ### How many ids a request takes -/

/-- The C strings of a request that are not in memory, each once. -/
def newStrings (m : MemoryStorage) (strings : List Bytes) : List CString :=
  (strings.map cstr).dedup.filter fun k => m[k]?.isNone

theorem mem_newStrings {m : MemoryStorage} {strings : List Bytes} {k : CString} :
    k ∈ newStrings m strings ↔ (∃ s ∈ strings, cstr s = k) ∧ m[k]? = none := by
  simp [newStrings]

theorem nodup_newStrings (m : MemoryStorage) (strings : List Bytes) :
    (newStrings m strings).Nodup :=
  (List.nodup_dedup _).filter _

variable {m : MemoryStorage} {c : NumID} {done strings : List Bytes} {l l' : Loop}

/-- One id for every new C string of the request. -/
theorem Numbered.length_kvPairs (h : Numbered m c done l) :
    l.kvPairs.length = (newStrings m done).length := by
  rw [← List.length_map (fun p : KVPair => cstr p.value)]
  apply List.Perm.length_eq
  rw [List.perm_ext_iff_of_nodup h.distinct (nodup_newStrings m done)]
  intro k
  rw [mem_newStrings, List.mem_map]
  constructor
  · rintro ⟨p, hp, rfl⟩
    exact ⟨⟨p.value, h.requested p hp, rfl⟩, h.fresh p hp⟩
  · rintro ⟨⟨s, hs, rfl⟩, hnone⟩
    obtain ⟨id, -, hsome⟩ := h.isSome_of_mem hs
    rcases h.mem_iff.mp hsome with ⟨p, hp, heq, -⟩ | hm
    · exact ⟨p, hp, heq⟩
    · rw [hnone] at hm
      cases hm

/-- Without failing Judy calls the loop only ends early when the new strings of the
    request need more ids than are left. -/
theorem rounds_error {i : Nat} {f : Fault} (h : Numbered m c done l)
    (herror : rounds (fun _ => {}) i l strings = .error f) :
    f = .undefined .signedOverflow ∧
      2 ^ 63 ≤ c.toInt + (newStrings m (done ++ strings)).length := by
  induction strings generalizing i l done with
  | nil => cases herror
  | cons str strings ih =>
    rw [rounds] at herror
    split at herror
    · rename_i f' hround
      cases herror
      unfold round at hround
      rcases hfind : MemoryStorage.find {} l.memoryStorage str l.cnt with f | r
      · simp only [hfind, Except.error.injEq] at hround
        subst hround
        obtain ⟨hnew, hcnt, hf⟩ := MemoryStorage.find_error hfind
        refine ⟨hf, ?_⟩
        -- the pending strings and the one that failed are new in the whole request
        have hnone := h.memory_eq_none.mp hnew
        have hnodup : (cstr str :: l.kvPairs.map fun p => cstr p.value).Nodup := by
          refine List.nodup_cons.mpr ⟨?_, h.distinct⟩
          intro hmem
          obtain ⟨p, hp, heq⟩ := List.mem_map.mp hmem
          exact hnone.1 p hp heq
        have hsub : (cstr str :: l.kvPairs.map fun p => cstr p.value) ⊆
            newStrings m (done ++ str :: strings) := by
          intro k hk
          rw [mem_newStrings]
          rcases List.mem_cons.mp hk with rfl | hk
          · exact ⟨⟨str, by simp, rfl⟩, hnone.2⟩
          · obtain ⟨p, hp, rfl⟩ := List.mem_map.mp hk
            exact ⟨⟨p.value, List.mem_append_left _ (h.requested p hp), rfl⟩, h.fresh p hp⟩
        have hlength := (hnodup.subperm hsub).length_le
        rw [List.length_cons, List.length_map] at hlength
        have hcnt' := h.cnt
        omega
      · simp [hfind] at hround
    · rename_i l₁ hround
      simpa using ih (h.round hround) herror

/-- The replies of a library that does not fail do not depend on the round. -/
theorem rounds_index (i j : Nat) (l : Loop) (strings : List Bytes) :
    rounds (fun _ => {}) i l strings = rounds (fun _ => {}) j l strings := by
  induction strings generalizing i j l with
  | nil => rfl
  | cons str strings ih =>
    rw [rounds, rounds]
    split
    · rfl
    · exact ih _ _ _

end Server

end Numerator
