import Numerator.Loaded

/-!
# Memory, store and counter

In a process started without `--disable-s2i` the three pieces of state hang
together: the memory is loaded, and the counter is one more than the greatest of
0 and the stored ids, so that it always stands before free ids. The invariant is
kept by every event but a start with `--disable-s2i`. What clients rely on
(which keys are in memory, which ids are still free) is read off from it.
-/

namespace Numerator

open Std FiniteMap DiskStorage

/-! ### The counter -/

/-- Memory and counter are the ones that the store determines. -/
structure Server.Coupled (s : Server) : Prop where
  memory : s.Loaded
  counter : s.cnt.toInt = (greatestId s.diskStorage).toInt + 1

section Number

variable {db : Store} {c : NumID} {strings : List Bytes} {l : Server.Loop}

/-- The counter stays one ahead of the greatest stored id. -/
theorem greatestId_putBatch (h : Server.Numbered (memoryOf db) c strings l)
    (hc : c.toInt = (greatestId db).toInt + 1) :
    l.cnt.toInt = (greatestId (putBatch db l.kvPairs)).toInt + 1 := by
  have hcnt := h.cnt
  obtain ⟨hattained, hbound⟩ := isGreatest_greatestId db
  have hgreatest : IsGreatest
      {x : Int | x = 0 ∨ ∃ id ∈ putBatch db l.kvPairs, id.toInt = x} (l.cnt.toInt - 1) := by
    constructor
    · by_cases hempty : l.kvPairs.length = 0
      · have hsame : l.cnt.toInt - 1 = (greatestId db).toInt := by omega
        rw [hsame]
        rcases hattained with hzero | ⟨id, hid, heq⟩
        · exact Or.inl hzero
        · exact Or.inr ⟨id, (mem_putBatch_iff h.keys_nodup).mpr (Or.inr hid), heq⟩
      · obtain ⟨p, hp, hkey⟩ := h.exists_key (x := l.cnt.toInt - 1) (by omega) (by omega)
        exact Or.inr
          ⟨p.key, (mem_putBatch_iff h.keys_nodup).mpr (Or.inl ⟨p, hp, rfl⟩), hkey⟩
    · rintro x (rfl | ⟨id, hid, rfl⟩)
      · have hzero := hbound (Or.inl rfl)
        omega
      · rcases (mem_putBatch_iff h.keys_nodup).mp hid with ⟨p, hp, rfl⟩ | hid
        · have hkey := h.key_bounds hp
          omega
        · have hle := hbound (Or.inr ⟨id, hid, rfl⟩)
          omega
  have hunique := (isGreatest_greatestId _).unique hgreatest
  omega

end Number

namespace Server.Coupled

variable {s : Server} {strings : List Bytes} {l : Server.Loop}

theorem lt_counter (h : s.Coupled) {id : NumID} (hid : id ∈ s.diskStorage) :
    id.toInt < s.cnt.toInt := by
  have hle := (isGreatest_greatestId s.diskStorage).2 (Or.inr ⟨id, hid, rfl⟩)
  rw [h.counter]
  omega

theorem counter_pos (h : s.Coupled) : 0 < s.cnt.toInt := by
  have hzero := (isGreatest_greatestId s.diskStorage).2 (Or.inl rfl)
  rw [h.counter]
  omega

theorem freshIds (h : s.Coupled) (strings : List Bytes) : s.FreshIds strings :=
  fun _ hid => Or.inl (h.lt_counter hid)

theorem free (h : s.Coupled) (henabled : s.disableS2iQueries = false)
    (hl : Numbered (memoryOf s.diskStorage) s.cnt strings l) :
    ∀ p ∈ l.kvPairs, s.diskStorage[p.key]? = none := by
  rw [← h.memory.enabled henabled] at hl
  exact (freshIds_iff hl).mp (h.freshIds strings)

end Server.Coupled

/-! ### The invariant -/

/-- The process of the directory, if there is one, is coupled. -/
def Node.Coupled (n : Node) : Prop := ∀ s, n = .running s → s.Coupled

namespace Node

variable {n n' : Node} {e : Event} {o : Outcome}

theorem coupled_stopped (db : Store) : (Node.stopped db).Coupled := fun _ h => by cases h

theorem Coupled.loaded (h : n.Coupled) : n.Loaded := fun s hs => (h s hs).memory

theorem Coupled.freshIds (h : n.Coupled) (e : Event) : FreshIds n e :=
  fun s q hs _ _ _ => (h s hs).freshIds q.strings

theorem Transition.coupled (h : Transition n e o n') (he : e ≠ .start true) (hn : n.Coupled) :
    n'.Coupled := by
  intro s' hs'
  refine ⟨h.loaded hn.loaded (hn.freshIds e) s' hs', ?_⟩
  cases h with
  | startDisabled db => exact absurd rfl he
  | startLoaded db cnt hcnt =>
    cases hs'
    exact hcnt
  | number s q l hop henabled hrounds =>
    cases hs'
    have hl := (hn s rfl).memory.numbered henabled hrounds
    exact greatestId_putBatch hl (hn s rfl).counter
  | disable s henabled | enable s hdisabled =>
    cases hs'
    exact (hn s rfl).counter
  | stop s => cases hs'
  | lookup s q hop | refused s q hop hdisabled | unknown s q code hop
  | disableAgain s hdisabled | enableAgain s henabled | ignoredStart s d =>
    exact (hn s' hs').counter
  | ignoredStopped db e he => exact (hn s' hs').counter

end Node

section History

variable {es : List Event} {n n' : Node} {tr : List (Machine.Record Node Event Outcome)}

theorem coupled_history (h : history n es = some (tr, n')) (hes : ∀ e ∈ es, e ≠ .start true)
    (hn : n.Coupled) : n'.Coupled ∧ ∀ r ∈ tr, r.before.Coupled ∧ r.after.Coupled :=
  Machine.run_invariant (fun r => r.event ≠ .start true) Node.Coupled
    (fun _ hr he hn => (Node.transition_of_step hr).coupled he hn) h
    (fun _ hr => hes _ (Machine.event_mem_of_run h hr)) hn

theorem prefixDistinct_history (h : history n es = some (tr, n'))
    (hes : ∀ e ∈ es, e ≠ .start true) (hn : n.Coupled) (hdistinct : PrefixDistinct n.store) :
    PrefixDistinct n'.store ∧
      ∀ r ∈ tr, PrefixDistinct r.before.store ∧ PrefixDistinct r.after.store :=
  Machine.run_invariant _ (fun n => PrefixDistinct n.store)
    (fun _ hr hbefore hdistinct =>
      (Node.transition_of_step hr).prefixDistinct hbefore hdistinct) h
    (fun r hr => ((coupled_history h hes hn).2 r hr).1.loaded) hdistinct

end History

/-! ### What holds after every operation -/

/-- Memory, store and counter of a process, as its clients rely on them; `db` is the store
    of the directory before its first process. -/
structure Server.InStep (db : Store) (s : Server) : Prop where
  disabled : s.disableS2iQueries = true → s.memoryStorage = ∅
  keys : s.disableS2iQueries = false → ∀ k, k ∈ s.memoryStorage ↔
    ∃ (id : NumID) (v : Bytes), s.diskStorage[id]? = some v ∧ cstr v = k
  entries : s.disableS2iQueries = false → ∀ (k : CString) (id : NumID),
    s.memoryStorage[k]? = some id → ∃ v, s.diskStorage[id]? = some v ∧ cstr v = k
  counter : 0 < s.cnt.toInt ∧ ∀ id ∈ s.diskStorage, id.toInt < s.cnt.toInt
  distinct : PrefixDistinct db → PrefixDistinct s.diskStorage

theorem memory_store_counter_inStep (db : Store) (es : List Event) (hes : ∀ e ∈ es, e ≠ .start true)
    (tr : List (Machine.Record Node Event Outcome)) (n : Node)
    (h : history (.stopped db) es = some (tr, n)) :
    ∀ r ∈ tr, ∀ s, r.after = .running s → s.InStep db := by
  intro r hr s hs
  have hcoupled : s.Coupled := ((coupled_history h hes (Node.coupled_stopped db)).2 r hr).2 s hs
  refine ⟨?_, ?_, ?_, ⟨hcoupled.counter_pos, fun id hid => hcoupled.lt_counter hid⟩, ?_⟩
  · exact hcoupled.memory.disabled
  · intro henabled k
    rw [hcoupled.memory.enabled henabled]
    exact mem_memoryOf_iff
  · intro henabled k id hid
    rw [hcoupled.memory.enabled henabled] at hid
    exact mem_memoryOf hid
  · intro hdb
    have hafter := ((prefixDistinct_history h hes (Node.coupled_stopped db) hdb).2 r hr).2
    rwa [hs] at hafter

/-- An imported store with one string under two ids, a toggle and a restart. -/
theorem memory_store_counter_inStep_imported :
    ∃ tr n, history (.stopped (((∅ : Store).insert (-3) [97]).insert 5 [97]))
        [.start false, .query { op := .STR2ID, strings := [[97], [98, 0]] }, .disableS2i,
          .enableS2i, .stop, .start false] = some (tr, n) ∧
      ∀ r ∈ tr, ∀ s, r.after = .running s →
        s.InStep (((∅ : Store).insert (-3) [97]).insert 5 [97]) := by
  obtain ⟨⟨tr, n⟩, h⟩ := Option.isSome_iff_exists.mp
    (show (history (.stopped (((∅ : Store).insert (-3) [97]).insert 5 [97]))
      [.start false, .query { op := .STR2ID, strings := [[97], [98, 0]] }, .disableS2i,
        .enableS2i, .stop, .start false]).isSome from by decide)
  exact ⟨tr, n, h, memory_store_counter_inStep _ _ (by decide) tr n h⟩

end Numerator
