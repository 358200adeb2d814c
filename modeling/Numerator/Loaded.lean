import Numerator.Transitions

/-!
# Memory and store

While STR2ID is enabled the memory map is the one that a load of the store
gives, and while it is disabled the map is empty. Every event keeps this except
a query whose new ids are already stored: its batch then overwrites entries. So
the condition of the invariant is `FreshIds`, that the counter stands before a
block of free ids.
-/

namespace Numerator

open Std FiniteMap DiskStorage

/-- No two ids of the store carry strings with one NUL-prefix. -/
def PrefixDistinct (db : Store) : Prop :=
  ∀ (id id' : NumID) (v v' : Bytes), db[id]? = some v → db[id']? = some v' →
    cstr v = cstr v' → id = id'

theorem mem_memoryOf {db : Store} {k : CString} {id : NumID} (h : (memoryOf db)[k]? = some id) :
    ∃ v, db[id]? = some v ∧ cstr v = k :=
  (getElem?_index.mp h).carried

theorem memoryOf_eq_none {db : Store} {k : CString} :
    (memoryOf db)[k]? = none ↔ ∀ (id : NumID) (v : Bytes), db[id]? = some v → cstr v ≠ k :=
  index_eq_none

theorem mem_memoryOf_iff {db : Store} {k : CString} :
    k ∈ memoryOf db ↔ ∃ (id : NumID) (v : Bytes), db[id]? = some v ∧ cstr v = k := by
  rw [ExtTreeMap.mem_iff_isSome_getElem?]
  rcases h : (memoryOf db)[k]? with _ | id
  · rw [memoryOf_eq_none] at h
    simp only [Option.isSome_none, Bool.false_eq_true, false_iff, not_exists, not_and]
    exact h
  · simp only [Option.isSome_some, true_iff]
    exact ⟨id, mem_memoryOf h⟩

theorem prefixDistinct_empty : PrefixDistinct ∅ := by
  intro id id' v v' hv
  simp at hv

/-- With distinct prefixes a load finds every entry of the store again. -/
theorem PrefixDistinct.memoryOf_eq_some {db : Store} (h : PrefixDistinct db) {k : CString}
    {id : NumID} : (memoryOf db)[k]? = some id ↔ ∃ v, db[id]? = some v ∧ cstr v = k := by
  constructor
  · exact mem_memoryOf
  · rintro ⟨v, hv, hk⟩
    have hmem : k ∈ memoryOf db := mem_memoryOf_iff.mpr ⟨id, v, hv, hk⟩
    obtain ⟨id', hid'⟩ := Option.isSome_iff_exists.mp
      ((ExtTreeMap.mem_iff_isSome_getElem?).mp hmem)
    obtain ⟨v', hv', hk'⟩ := mem_memoryOf hid'
    rw [hid', h id' id v' v hv' hv (hk'.trans hk.symm)]

/-! ### A STR2ID query on a loaded memory -/

section Number

variable {db : Store} {c : NumID} {strings : List Bytes} {l : Server.Loop}
variable {kvPairs : List KVPair}

theorem mem_putBatch (h : (kvPairs.map KVPair.key).Nodup) {id : NumID} {v : Bytes} :
    (putBatch db kvPairs)[id]? = some v ↔
      (∃ p ∈ kvPairs, p.key = id ∧ p.value = v) ∨
        (∀ p ∈ kvPairs, p.key ≠ id) ∧ db[id]? = some v :=
  getElem?_putAll_eq_some h

/-- A batch of free ids leaves every entry where it was. -/
theorem mem_putBatch_of_free (h : (kvPairs.map KVPair.key).Nodup)
    (hfree : ∀ p ∈ kvPairs, db[p.key]? = none) {id : NumID} {v : Bytes} :
    (putBatch db kvPairs)[id]? = some v ↔ ⟨id, v⟩ ∈ kvPairs ∨ db[id]? = some v := by
  rw [mem_putBatch h]
  constructor
  · rintro (⟨p, hp, rfl, rfl⟩ | ⟨-, hv⟩)
    · exact Or.inl hp
    · exact Or.inr hv
  · rintro (hp | hv)
    · exact Or.inl ⟨_, hp, rfl, rfl⟩
    · refine Or.inr ⟨?_, hv⟩
      rintro p hp rfl
      rw [hfree p hp] at hv
      cases hv

theorem extends_putBatch (hfree : ∀ p ∈ kvPairs, db[p.key]? = none) :
    Extends db (putBatch db kvPairs) :=
  extends_putAll hfree

/-- When the allocated ids are free in the store, the memory after the query is again
    the one that a load of the written store gives. -/
theorem memoryOf_putBatch (h : Server.Numbered (memoryOf db) c strings l)
    (hfree : ∀ p ∈ l.kvPairs, db[p.key]? = none) :
    memoryOf (putBatch db l.kvPairs) = l.memoryStorage := by
  rw [h.memory]
  exact index_putAll h.keys_nodup h.distinct hfree h.fresh

theorem prefixDistinct_putBatch (h : Server.Numbered (memoryOf db) c strings l)
    (hdb : PrefixDistinct db) : PrefixDistinct (putBatch db l.kvPairs) := by
  have hold : ∀ p ∈ l.kvPairs, ∀ (id : NumID) (v : Bytes), db[id]? = some v →
      cstr v ≠ cstr p.value :=
    fun p hp => memoryOf_eq_none.mp (h.fresh p hp)
  intro id id' v v' hv hv' hcstr
  rw [mem_putBatch h.keys_nodup] at hv hv'
  rcases hv with ⟨p, hp, rfl, rfl⟩ | ⟨-, hv⟩ <;>
    rcases hv' with ⟨q, hq, rfl, rfl⟩ | ⟨-, hv'⟩
  · rw [List.inj_on_of_nodup_map h.distinct hp hq hcstr]
  · exact absurd hcstr.symm (hold p hp _ _ hv')
  · exact absurd hcstr (hold q hq _ _ hv)
  · exact hdb id id' v v' hv hv' hcstr

theorem mem_putBatch_iff (h : (kvPairs.map KVPair.key).Nodup) {id : NumID} :
    id ∈ putBatch db kvPairs ↔ (∃ p ∈ kvPairs, p.key = id) ∨ id ∈ db := by
  simp only [ExtTreeMap.mem_iff_isSome_getElem?, Option.isSome_iff_exists, mem_putBatch h]
  constructor
  · rintro ⟨v, ⟨p, hp, hkey, -⟩ | ⟨-, hv⟩⟩
    · exact Or.inl ⟨p, hp, hkey⟩
    · exact Or.inr ⟨v, hv⟩
  · rintro (⟨p, hp, hkey⟩ | ⟨v, hv⟩)
    · exact ⟨p.value, Or.inl ⟨p, hp, hkey, rfl⟩⟩
    · by_cases hpending : ∃ p ∈ kvPairs, p.key = id
      · obtain ⟨p, hp, hkey⟩ := hpending
        exact ⟨p.value, Or.inl ⟨p, hp, hkey, rfl⟩⟩
      · exact ⟨v, Or.inr ⟨fun p hp hkey => hpending ⟨p, hp, hkey⟩, hv⟩⟩

end Number

/-! ### The invariant -/

/-- Memory is off, or it is what a load of the store gives. -/
def Server.Loaded (s : Server) : Prop :=
  s.memoryStorage = if s.disableS2iQueries then ∅ else memoryOf s.diskStorage

/-- The ids that a request for these strings takes are not stored: it takes one for each
    new string, from the counter on. -/
def Server.FreshIds (s : Server) (strings : List Bytes) : Prop :=
  ∀ id ∈ s.diskStorage, id.toInt < s.cnt.toInt ∨
    s.cnt.toInt + (newStrings s.memoryStorage strings).length ≤ id.toInt

namespace Server

variable {s : Server} {strings : List Bytes} {l : Loop}

theorem Loaded.enabled (h : s.Loaded) (henabled : s.disableS2iQueries = false) :
    s.memoryStorage = memoryOf s.diskStorage := by
  rw [Loaded, henabled] at h
  exact h

theorem Loaded.disabled (h : s.Loaded) (hdisabled : s.disableS2iQueries = true) :
    s.memoryStorage = ∅ := by
  rw [Loaded, hdisabled] at h
  exact h

/-- The loop of a query that a loaded process serves. -/
theorem Loaded.numbered (h : s.Loaded) (henabled : s.disableS2iQueries = false)
    {judy : Nat → JudyReply}
    (hrounds : rounds judy 0 ⟨s.memoryStorage, s.cnt, [], []⟩ strings = .ok l) :
    Numbered (memoryOf s.diskStorage) s.cnt strings l := by
  rw [h.enabled henabled] at hrounds
  exact (numbered_nil _ _).rounds hrounds

/-- Fresh ids are exactly those under which the batch finds nothing in the store. -/
theorem freshIds_iff (h : Numbered s.memoryStorage s.cnt strings l) :
    s.FreshIds strings ↔ ∀ p ∈ l.kvPairs, s.diskStorage[p.key]? = none := by
  unfold FreshIds
  rw [← h.length_kvPairs]
  constructor
  · intro hfresh p hp
    apply ExtTreeMap.getElem?_eq_none
    intro hmem
    have hbounds := h.key_bounds hp
    have hid := hfresh p.key hmem
    omega
  · intro hfree id hid
    by_contra hinside
    push Not at hinside
    obtain ⟨p, hp, hkey⟩ := h.exists_key hinside.1 hinside.2
    rw [ExtTreeMap.mem_iff_isSome_getElem?, ← Int64.toInt_inj.mp hkey, hfree p hp] at hid
    cases hid

end Server

namespace Node

/-- The process of the directory, if there is one, is loaded. -/
def Loaded (n : Node) : Prop := ∀ s, n = .running s → s.Loaded

/-- The event is no request that would be given stored ids. -/
def FreshIds (n : Node) (e : Event) : Prop :=
  ∀ s q, n = .running s → e = .query q → q.op = .STR2ID → s.disableS2iQueries = false →
    s.FreshIds q.strings

theorem loaded_stopped (db : Store) : (Node.stopped db).Loaded := fun _ h => by cases h

variable {n n' : Node} {e : Event} {o : Outcome}

/-- The batch of a loaded process finds only free ids. -/
theorem FreshIds.free {s : Server} {q : Query} {l : Server.Loop}
    (h : FreshIds (.running s) (.query q)) (hop : q.op = .STR2ID)
    (henabled : s.disableS2iQueries = false) (hn : s.Loaded)
    (hl : Server.Numbered (memoryOf s.diskStorage) s.cnt q.strings l) :
    ∀ p ∈ l.kvPairs, s.diskStorage[p.key]? = none := by
  rw [← hn.enabled henabled] at hl
  exact (Server.freshIds_iff hl).mp (h s q rfl rfl hop henabled)

theorem Transition.loaded (h : Transition n e o n') (hn : n.Loaded) (hfresh : FreshIds n e) :
    n'.Loaded := by
  intro s' hs'
  cases h with
  | startDisabled db | startLoaded db cnt hcnt =>
    cases hs'
    rfl
  | number s q l hop henabled hrounds =>
    cases hs'
    have hl := (hn s rfl).numbered henabled hrounds
    exact (memoryOf_putBatch hl (hfresh.free hop henabled (hn s rfl) hl)).symm
  | disable s henabled =>
    cases hs'
    rfl
  | enable s hdisabled =>
    cases hs'
    -- the map was empty while the service was disabled, so the load fills it from scratch
    have hempty : s.memoryStorage = ∅ := (hn s rfl).disabled hdisabled
    simp only [hempty]
    rfl
  | stop s => cases hs'
  | lookup s q hop | refused s q hop hdisabled | unknown s q code hop
  | disableAgain s hdisabled | enableAgain s henabled | ignoredStart s d => exact hn s' hs'
  | ignoredStopped db e he => exact hn s' hs'

/-- The distinctness of prefixes needs no condition: a new string has a new prefix. -/
theorem Transition.prefixDistinct (h : Transition n e o n') (hn : n.Loaded)
    (hdb : PrefixDistinct n.store) : PrefixDistinct n'.store := by
  cases h with
  | number s q l hop henabled hrounds =>
    exact prefixDistinct_putBatch ((hn s rfl).numbered henabled hrounds) hdb
  | _ => exact hdb

/-- With fresh ids a step keeps every stored entry. -/
theorem Transition.extends (h : Transition n e o n') (hn : n.Loaded) (hfresh : FreshIds n e) :
    Extends n.store n'.store := by
  cases h with
  | number s q l hop henabled hrounds =>
    have hl := (hn s rfl).numbered henabled hrounds
    exact extends_putBatch (hfresh.free hop henabled (hn s rfl) hl)
  | _ => exact Extends.refl _

end Node

end Numerator
