import Numerator.Coupling
import Numerator.FirstOccurrences

/-!
# STR2ID without its loop

What a STR2ID request does, said by positions: a string that memory knows gets
its id from there, and the others get the ids from the counter on, in the order
in which their C strings occur for the first time. The loop of the handler comes
to the same batch, one string after the other.
-/

namespace Numerator

open Std FiniteMap FirstOccurrences DiskStorage

namespace Server

/-- The strings whose C string is not in memory, each where it occurs for the first time. -/
def newOccurrences (m : MemoryStorage) (strings : List Bytes) : List Bytes :=
  firsts cstr (strings.filter fun s => m[cstr s]?.isNone)

/-- The strings under the ids from `c` on. -/
def referenceBatch (c : NumID) (strings : List Bytes) : List KVPair :=
  strings.mapIdx fun j s => ⟨Int64.ofInt (c.toInt + j), s⟩

variable {db : Store} {m : MemoryStorage} {c : NumID} {done strings : List Bytes} {l l' : Loop}

theorem newOccurrences_concat_of_known {xs : List Bytes} {x : Bytes}
    (h : m[cstr x]? ≠ none ∨ ∃ y ∈ xs, cstr y = cstr x) :
    newOccurrences m (xs ++ [x]) = newOccurrences m xs := by
  unfold newOccurrences
  rw [List.filter_append]
  rcases hx : m[cstr x]? with _ | id
  · obtain ⟨y, hy, heq⟩ := h.resolve_left fun hne => hne hx
    have hold : ∃ y ∈ xs.filter (fun s => m[cstr s]?.isNone), cstr y = cstr x := by
      refine ⟨y, List.mem_filter.mpr ⟨hy, ?_⟩, heq⟩
      rw [heq, hx]
      rfl
    have hlast : [x].filter (fun s => m[cstr s]?.isNone) = [x] := by simp [hx]
    rw [hlast, firsts_concat, if_pos hold, List.append_nil]
  · simp [hx]

theorem newOccurrences_concat_of_new {xs : List Bytes} {x : Bytes} (hm : m[cstr x]? = none)
    (hxs : ∀ y ∈ xs, cstr y ≠ cstr x) :
    newOccurrences m (xs ++ [x]) = newOccurrences m xs ++ [x] := by
  have hlast : [x].filter (fun s => m[cstr s]?.isNone) = [x] := by simp [hm]
  have hnew : ¬ ∃ y ∈ xs.filter (fun s => m[cstr s]?.isNone), cstr y = cstr x := by
    rintro ⟨y, hy, heq⟩
    exact hxs y (List.mem_of_mem_filter hy) heq
  rw [newOccurrences, List.filter_append, hlast, firsts_concat, if_neg hnew]
  rfl

theorem length_newOccurrences (m : MemoryStorage) (strings : List Bytes) :
    (newOccurrences m strings).length = (newStrings m strings).length := by
  rw [newOccurrences, ← List.length_map cstr]
  apply List.Perm.length_eq
  rw [List.perm_ext_iff_of_nodup nodup_map_firsts (nodup_newStrings m strings)]
  intro k
  rw [mem_map_firsts, mem_newStrings]
  constructor
  · rintro ⟨s, hs, rfl⟩
    obtain ⟨hs, hnone⟩ := List.mem_filter.mp hs
    exact ⟨⟨s, hs, rfl⟩, Option.isNone_iff_eq_none.mp hnone⟩
  · rintro ⟨⟨s, hs, rfl⟩, hnone⟩
    exact ⟨s, List.mem_filter.mpr ⟨hs, Option.isNone_iff_eq_none.mpr hnone⟩, rfl⟩

/-! ### The loop collects the first occurrences -/

theorem values_round {reply : JudyReply} {str : Bytes} (h : Numbered m c done l)
    (hvalues : l.kvPairs.map KVPair.value = newOccurrences m done)
    (hround : round reply l str = .ok l') :
    l'.kvPairs.map KVPair.value = newOccurrences m (done ++ [str]) := by
  unfold round at hround
  rcases hfind : MemoryStorage.find reply l.memoryStorage str l.cnt with f | r
  · simp [hfind] at hround
  · simp only [hfind, Except.ok.injEq] at hround
    subst hround
    rcases MemoryStorage.find_cases hfind with ⟨hknown, -, -, hins⟩ | ⟨hnew, -, -, hins, -⟩
    · have hold : m[cstr str]? ≠ none ∨ ∃ y ∈ done, cstr y = cstr str := by
        rcases h.mem_iff.mp hknown with ⟨p, hp, hcstr, -⟩ | hm
        · exact Or.inr ⟨p.value, h.requested p hp, hcstr⟩
        · left
          rw [hm]
          simp
      rw [newOccurrences_concat_of_known hold, ← hvalues, hins]
      rfl
    · have hfirst : ∀ y ∈ done, cstr y ≠ cstr str := by
        intro y hy heq
        obtain ⟨id, -, hid⟩ := h.isSome_of_mem hy
        rw [heq, hnew] at hid
        cases hid
      rw [newOccurrences_concat_of_new (h.memory_eq_none.mp hnew).2 hfirst, ← hvalues, hins]
      simp

theorem values_rounds {judy : Nat → JudyReply} {i : Nat} (h : Numbered m c done l)
    (hvalues : l.kvPairs.map KVPair.value = newOccurrences m done)
    (hrounds : rounds judy i l strings = .ok l') :
    l'.kvPairs.map KVPair.value = newOccurrences m (done ++ strings) := by
  induction strings generalizing i l done with
  | nil =>
    cases hrounds
    simpa using hvalues
  | cons str strings ih =>
    rw [rounds] at hrounds
    split at hrounds
    · cases hrounds
    · rename_i l₁ hround
      simpa using ih (h.round hround) (values_round h hvalues hround) hrounds

namespace Numbered

theorem getElem?_ids (h : Numbered m c done l) {i : Nat} {str : Bytes} (hi : done[i]? = some str) :
    l.ids[i]? = l.memoryStorage[cstr str]? := by
  have hids := congrArg (fun xs => xs[i]?) h.ids
  simp only [List.getElem?_map, hi, Option.map_some] at hids
  obtain ⟨id, hid, heq⟩ := Option.map_eq_some_iff.mp hids
  rw [hid, ← heq]

theorem toInt_key (h : Numbered m c done l) {j : Nat} {p : KVPair} (hp : l.kvPairs[j]? = some p) :
    p.key.toInt = c.toInt + j := by
  have hj : j < l.kvPairs.length := (List.getElem?_eq_some_iff.mp hp).1
  have hkeys := congrArg (fun xs => xs[j]?) h.keys
  simpa only [List.getElem?_map, hp, List.getElem?_range hj, Option.map_some,
    Option.some.injEq] using hkeys

/-- The batch is the reference batch of the first occurrences. -/
theorem kvPairs_eq_referenceBatch (h : Numbered m c done l)
    (hvalues : l.kvPairs.map KVPair.value = newOccurrences m done) :
    l.kvPairs = referenceBatch c (newOccurrences m done) := by
  rw [← hvalues]
  apply List.ext_getElem?
  intro j
  rw [referenceBatch, List.getElem?_mapIdx, List.getElem?_map]
  rcases hp : l.kvPairs[j]? with _ | p
  · rfl
  · simp only [Option.map_some, ← h.toInt_key hp, Int64.ofInt_toInt]

/-- A string that memory does not know gets the id of its first occurrence. -/
theorem getElem?_ids_of_unknown (h : Numbered m c done l)
    (hvalues : l.kvPairs.map KVPair.value = newOccurrences m done) {i : Nat} {str : Bytes}
    (hi : done[i]? = some str) (hnone : m[cstr str]? = none) :
    ∃ (j : Nat) (first : Bytes) (id : NumID), (newOccurrences m done)[j]? = some first ∧
      cstr first = cstr str ∧ l.ids[i]? = some id ∧ id.toInt = c.toInt + j := by
  obtain ⟨id, -, hid⟩ := h.isSome_of_mem (List.mem_of_getElem? hi)
  rcases h.mem_iff.mp hid with ⟨p, hp, hcstr, rfl⟩ | hold
  · obtain ⟨j, hj⟩ := List.mem_iff_getElem?.mp hp
    refine ⟨j, p.value, p.key, ?_, hcstr, ?_, h.toInt_key hj⟩
    · rw [← hvalues, List.getElem?_map, hj, Option.map_some]
    · rw [h.getElem?_ids hi, hid]
  · rw [hnone] at hold
    cases hold

/-- The store tells the C string of an id, so no two of them share one. -/
theorem cstr_eq_of_id (h : Numbered (memoryOf db) c done l)
    (hfree : ∀ p ∈ l.kvPairs, db[p.key]? = none) {k k' : CString} {id : NumID}
    (hk : l.memoryStorage[k]? = some id) (hk' : l.memoryStorage[k']? = some id) : k = k' := by
  rw [← memoryOf_putBatch h hfree] at hk hk'
  obtain ⟨v, hv, rfl⟩ := mem_memoryOf hk
  obtain ⟨v', hv', rfl⟩ := mem_memoryOf hk'
  rw [Option.some.inj (hv.symm.trans hv')]

end Numbered

/-! ### The whole request -/

/-- Answer, batch and state after a STR2ID request, told from the request and the state
    before it. -/
structure ByFirstOccurrence (s : Server) (strings : List Bytes) (ids : List NumID)
    (batch : List KVPair) (s' : Server) : Prop where
  length : ids.length = strings.length
  identified : ∀ (i j : Nat) (str str' : Bytes) (id id' : NumID),
    strings[i]? = some str → strings[j]? = some str' → ids[i]? = some id → ids[j]? = some id' →
      (id = id' ↔ cstr str = cstr str')
  known : ∀ (i : Nat) (str : Bytes) (id : NumID), strings[i]? = some str →
    s.memoryStorage[cstr str]? = some id → ids[i]? = some id
  unknown : ∀ (i : Nat) (str : Bytes), strings[i]? = some str →
    s.memoryStorage[cstr str]? = none → ∃ (j : Nat) (first : Bytes) (id : NumID),
      (newOccurrences s.memoryStorage strings)[j]? = some first ∧ cstr first = cstr str ∧
        ids[i]? = some id ∧ id.toInt = s.cnt.toInt + j
  pairs : batch = referenceBatch s.cnt (newOccurrences s.memoryStorage strings)
  fresh : (batch.map KVPair.key).Nodup ∧ ∀ p ∈ batch, s.diskStorage[p.key]? = none
  cnt : s'.cnt.toInt = s.cnt.toInt + (newOccurrences s.memoryStorage strings).length
  size : s'.diskStorage.size =
    s.diskStorage.size + (newOccurrences s.memoryStorage strings).length
  store : ∀ (id : NumID) (v : Bytes), s'.diskStorage[id]? = some v ↔
    ⟨id, v⟩ ∈ batch ∨ s.diskStorage[id]? = some v
  memory : ∀ (k : CString) (id : NumID), s'.memoryStorage[k]? = some id ↔
    (∃ p ∈ batch, cstr p.value = k ∧ p.key = id) ∨ s.memoryStorage[k]? = some id
  enabled : s'.disableS2iQueries = false

theorem Coupled.byFirstOccurrence {s : Server} (h : s.Coupled)
    (henabled : s.disableS2iQueries = false)
    (hrounds : rounds (fun _ => {}) 0 ⟨s.memoryStorage, s.cnt, [], []⟩ strings = .ok l) :
    ByFirstOccurrence s strings l.ids l.kvPairs
      ⟨putBatch s.diskStorage l.kvPairs, l.memoryStorage, l.cnt, false⟩ := by
  have hl : Numbered s.memoryStorage s.cnt strings l := (numbered_nil _ _).rounds hrounds
  have hvalues : l.kvPairs.map KVPair.value = newOccurrences s.memoryStorage strings :=
    values_rounds (numbered_nil _ _) rfl hrounds
  have hlength : l.kvPairs.length = (newOccurrences s.memoryStorage strings).length := by
    rw [← hvalues, List.length_map]
  have hloaded : Numbered (memoryOf s.diskStorage) s.cnt strings l :=
    h.memory.numbered henabled hrounds
  have hfree := h.free henabled hloaded
  refine ⟨hl.length_ids, ?_, ?_, fun i str => hl.getElem?_ids_of_unknown hvalues,
    hl.kvPairs_eq_referenceBatch hvalues, ⟨hl.keys_nodup, hfree⟩, ?_, ?_,
    fun id v => mem_putBatch_of_free hl.keys_nodup hfree, fun k id => hl.mem_iff, rfl⟩
  · intro i j str str' id id' hi hj hid hid'
    rw [hl.getElem?_ids hi] at hid
    rw [hl.getElem?_ids hj] at hid'
    constructor
    · rintro rfl
      exact hloaded.cstr_eq_of_id hfree hid hid'
    · intro heq
      rw [heq, hid'] at hid
      exact (Option.some.inj hid).symm
  · intro i str id hi hid
    rw [hl.getElem?_ids hi]
    exact hl.mem_iff.mpr (Or.inr hid)
  · rw [← hlength]
    exact hl.cnt
  · rw [← hlength]
    exact size_putAll hl.keys_nodup hfree

end Server

/-- In a process started without `--disable-s2i` a STR2ID request for which there are ids
    left is answered by first occurrence. -/
theorem str2id_by_first_occurrence (db : Store) (es : List Event)
    (hes : ∀ e ∈ es, e ≠ .start true) (tr : List (Machine.Record Node Event Outcome)) (s : Server)
    (h : history (.stopped db) es = some (tr, .running s)) (henabled : s.disableS2iQueries = false)
    (q : Query) (hop : q.op = .STR2ID)
    (hcnt : s.cnt.toInt + (Server.newOccurrences s.memoryStorage q.strings).length < 2 ^ 63) :
    ∃ (l : Server.Loop) (s' : Server),
      Server.rounds (fun _ => {}) 0 ⟨s.memoryStorage, s.cnt, [], []⟩ q.strings = .ok l ∧
      s' = ⟨putBatch s.diskStorage l.kvPairs, l.memoryStorage, l.cnt, false⟩ ∧
      Node.step (.running s) (.query q) =
        some (.response { op := .STR2ID, ids := l.ids }, .running s') ∧
      s.ByFirstOccurrence q.strings l.ids l.kvPairs s' := by
  have hcoupled : s.Coupled := (coupled_history h hes (Node.coupled_stopped db)).1 s rfl
  rcases hrounds : Server.rounds (fun _ => {}) 0 ⟨s.memoryStorage, s.cnt, [], []⟩ q.strings
    with f | l
  · have hoverflow := (Server.rounds_error (Server.numbered_nil _ _) hrounds).2
    rw [List.nil_append, ← Server.length_newOccurrences] at hoverflow
    omega
  · refine ⟨l, _, rfl, rfl, ?_, hcoupled.byFirstOccurrence henabled hrounds⟩
    simp [Node.step, Node.query, Server.queryImpl, hop, henabled, hrounds, DiskStorage.write]

/-- A string under two ids, a known string, a repetition behind a NUL and the empty string. -/
theorem str2id_by_first_occurrence_repeated :
    ∃ (tr : List (Machine.Record Node Event Outcome)) (s s' : Server) (l : Server.Loop),
      history (.stopped (((∅ : Store).insert 5 [97]).insert (-3) [97])) [.start false] =
        some (tr, .running s) ∧
      Node.step (.running s)
          (.query { op := .STR2ID, strings := [[98], [97], [98, 0, 99], [], [98]] }) =
        some (.response { op := .STR2ID, ids := l.ids }, .running s') ∧
      s.ByFirstOccurrence [[98], [97], [98, 0, 99], [], [98]] l.ids l.kvPairs s' := by
  have hrun : (history (.stopped (((∅ : Store).insert 5 [97]).insert (-3) [97]))
      [.start false]).map Prod.snd = some (.running ⟨((∅ : Store).insert 5 [97]).insert (-3) [97],
        ExtTreeMap.insert ∅ (cstr [97]) (-3), 6, false⟩) := by
    decide
  obtain ⟨⟨tr, n⟩, h, rfl⟩ := Option.map_eq_some_iff.mp hrun
  obtain ⟨l, s', -, -, hstep, hreference⟩ := str2id_by_first_occurrence _ _ (by decide) tr _ h rfl
    { op := .STR2ID, strings := [[98], [97], [98, 0, 99], [], [98]] } rfl (by decide)
  exact ⟨tr, _, s', l, h, hstep, hreference⟩

end Numerator
