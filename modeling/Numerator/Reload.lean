import Numerator.Coupling

/-!
# Reloading is unobservable

A process that serves STR2ID holds exactly the memory map and the counter that
its store determines. Throwing the map away and loading it again, with a pair of
toggles or with a restart, therefore leads back to the very same process, and
nothing that follows can tell the difference.
-/

namespace Numerator

open DiskStorage

/-- The events that drop the memory map and load it again. -/
inductive Reload : List Event → Prop where
  | toggle (lookups : List Query) (h : ∀ q ∈ lookups, q.op = .ID2STR) :
      Reload (.disableS2i :: (lookups.map Event.query ++ [.enableS2i]))
  | restart : Reload [.stop, .start false]

/-- ID2STR queries leave the process as it is. -/
theorem history_lookups (s : Server) (lookups : List Query)
    (h : ∀ q ∈ lookups, q.op = .ID2STR) :
    ∃ tr, history (.running s) (lookups.map Event.query) = some (tr, .running s) := by
  induction lookups with
  | nil => exact ⟨[], rfl⟩
  | cons q lookups ih =>
    rw [List.forall_mem_cons] at h
    have hstep : ∃ o, Node.step (.running s) (.query q) = some (o, .running s) := by
      simp only [Node.step, Node.query, Server.queryImpl, h.1, lookup_eq]
      exact ⟨_, rfl⟩
    obtain ⟨o, ho⟩ := hstep
    exact Machine.exists_run_cons ho (ih h.2)

namespace Server.Coupled

variable {s : Server}

theorem toggle (h : s.Coupled) (henabled : s.disableS2iQueries = false) (lookups : List Query)
    (hlookups : ∀ q ∈ lookups, q.op = .ID2STR) :
    ∃ tr, history (.running s) (.disableS2i :: (lookups.map Event.query ++ [.enableS2i])) =
      some (tr, .running s) := by
  have hdisable : Node.step (.running s) .disableS2i = some (.done,
      .running { s with memoryStorage := ∅, disableS2iQueries := true }) := by
    simp only [Node.step, Server.disableS2i, henabled, Bool.false_eq_true, if_false,
      MemoryStorage.unload]
  have henable : Node.step (.running { s with memoryStorage := ∅, disableS2iQueries := true })
      .enableS2i = some (.done, .running s) := by
    simp only [Node.step, Node.enable, Server.enableS2i, loadInMemory_newIterator,
      insertAll_empty, if_true, ← h.memory.enabled henabled, ← henabled]
  exact Machine.exists_run_cons hdisable (Machine.exists_run_append
    (history_lookups _ lookups hlookups) (Machine.exists_run_cons henable ⟨[], rfl⟩))

theorem restart (h : s.Coupled) (henabled : s.disableS2iQueries = false) :
    ∃ tr, history (.running s) [.stop, .start false] = some (tr, .running s) := by
  have hcounter : NumID.increment (maxId 0 s.diskStorage.toList) = .ok s.cnt :=
    NumID.increment_eq_ok.mpr h.counter
  have hstart : Node.step (.stopped s.diskStorage) (.start false) =
      some (.done, .running s) := by
    simp only [Node.step, Node.start, loadInMemory_newIterator, insertAll_empty, hcounter,
      Bool.false_eq_true, if_false, ← h.memory.enabled henabled]
    rw [← henabled]
  exact Machine.exists_run_cons rfl (Machine.exists_run_cons hstart ⟨[], rfl⟩)

theorem reload (h : s.Coupled) (henabled : s.disableS2iQueries = false) {events : List Event}
    (hevents : Reload events) :
    ∃ tr, history (.running s) events = some (tr, .running s) := by
  cases hevents with
  | toggle lookups hlookups => exact h.toggle henabled lookups hlookups
  | restart => exact h.restart henabled

end Server.Coupled

/-- From every reachable process that serves STR2ID a reload comes back to that process, so
    any later events run as they would without it. -/
theorem reload_unobservable (db : Store) (es : List Event) (hes : ∀ e ∈ es, e ≠ .start true)
    (tr : List (Machine.Record Node Event Outcome)) (s : Server)
    (h : history (.stopped db) es = some (tr, .running s))
    (henabled : s.disableS2iQueries = false) (events : List Event) (hevents : Reload events) :
    ∃ tr', history (.running s) events = some (tr', .running s) ∧
      ∀ later, history (.running s) (events ++ later) =
        (history (.running s) later).map fun p => (tr' ++ p.1, p.2) := by
  have hcoupled : s.Coupled := (coupled_history h hes (Node.coupled_stopped db)).1 s rfl
  obtain ⟨tr', htr'⟩ := hcoupled.reload henabled hevents
  exact ⟨tr', htr', fun later => Machine.run_append htr'⟩

/-- One string under two imported ids; the second one in byte order stays in memory. -/
theorem reload_unobservable_imported :
    let s : Server :=
      { diskStorage := (((∅ : Store).insert (-3) [97]).insert 5 [97]).insert 6 [98]
        memoryStorage := memoryOf ((((∅ : Store).insert (-3) [97]).insert 5 [97]).insert 6 [98])
        cnt := 7
        disableS2iQueries := false }
    ∃ tr, history (.running s) [.disableS2i, .query { op := .ID2STR, ids := [5] }, .enableS2i] =
        some (tr, .running s) ∧
      ∀ later, history (.running s)
          ([.disableS2i, .query { op := .ID2STR, ids := [5] }, .enableS2i] ++ later) =
        (history (.running s) later).map fun p => (tr ++ p.1, p.2) := by
  intro s
  have hreached : (history (.stopped (((∅ : Store).insert (-3) [97]).insert 5 [97]))
      [.start false, .query { op := .STR2ID, strings := [[97], [98]] }]).map Prod.snd =
        some (.running s) := by
    decide
  obtain ⟨⟨tr, n⟩, h, rfl⟩ := Option.map_eq_some_iff.mp hreached
  exact reload_unobservable _ _ (by decide) tr s h rfl _
    (.toggle [{ op := .ID2STR, ids := [5] }] (by decide))

end Numerator
