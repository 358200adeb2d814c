import Numerator.Permanence
import Numerator.Restore

/-!
# The range of ids

In a process started without `--disable-s2i` every request raises the greatest
stored id by the number of ids it takes. The counter is one above it, so a run
is defined exactly as long as the greatest id of the first store and all ids
taken since then add up to less than the largest id. Nothing keeps a dump from
carrying the largest id itself, and then not even the start is defined.
-/

namespace Numerator

open Std FiniteMap DiskStorage

/-- The ids that the step takes are above every id that is stored before it. -/
def AllocatesAbove (r : Machine.Record Node Event Outcome) : Prop :=
  ∀ (s : Server) (q : Query) (l : Server.Loop), r.before = .running s → r.event = .query q →
    q.op = .STR2ID → s.disableS2iQueries = false →
      Server.rounds (fun _ => {}) 0 ⟨s.memoryStorage, s.cnt, [], []⟩ q.strings = .ok l →
        ∀ p ∈ l.kvPairs, ∀ id ∈ s.diskStorage, id.toInt < p.key.toInt

/-- No increment of a process that is started on the store overflows in the course of the
    events, and all ids are taken above the stored ones. -/
def AllocatesInRange (db : Store) (es : List Event) : Prop :=
  ∃ tr n, history (.stopped db) (.start false :: es) = some (tr, n) ∧ ∀ r ∈ tr, AllocatesAbove r

theorem Node.Coupled.allocatesAbove {r : Machine.Record Node Event Outcome}
    (h : r.before.Coupled) : AllocatesAbove r := by
  intro s q l hbefore _ _ _ hrounds p hp id hid
  have hkey := ((Server.numbered_nil s.memoryStorage s.cnt).rounds hrounds).key_bounds hp
  have hlt := (h s hbefore).lt_counter hid
  omega

/-! ### How far the greatest id has come -/

namespace Node

variable {n n' : Node} {e : Event} {o : Outcome}

theorem Transition.greatestId (h : Transition n e o n') (hn : n.Coupled) :
    (greatestId n'.store).toInt = (greatestId n.store).toInt + n.newIds e := by
  cases h with
  | number s q l hop henabled hrounds =>
    have hl := (hn s rfl).memory.numbered henabled hrounds
    have hbefore := (hn s rfl).counter
    have hafter := greatestId_putBatch hl hbefore
    have hnew : newIds (.running s) (.query q) = l.kvPairs.length := by
      simp only [newIds, hop, henabled, and_self, if_true, (hn s rfl).memory.enabled henabled]
      exact hl.length_kvPairs.symm
    have hcnt := hl.cnt
    rw [hnew]
    simp only [store]
    omega
  | lookup s q hop | refused s q hop hdisabled | unknown s q code hop =>
    have hzero : newIds (.running s) (.query q) = 0 := by simp [newIds, *]
    rw [hzero, Nat.cast_zero, add_zero]
  | _ => exact (add_zero _).symm

/-- Whenever a process runs, its counter is an id. -/
theorem Transition.greatestId_lt (h : Transition n e o n') (he : e ≠ .start true)
    (hn : n.Coupled) (hlt : (DiskStorage.greatestId n.store).toInt < 2 ^ 63 - 1) :
    (DiskStorage.greatestId n'.store).toInt < 2 ^ 63 - 1 := by
  have hafter := h.coupled he hn
  rcases n' with db | s
  · cases h with
    | stop s => exact hlt
    | ignoredStopped db e he => exact hlt
  · have hcounter := (hafter s rfl).counter
    have hbound := s.cnt.toInt_lt
    simp only [store]
    omega

/-- The ids that are left are too few for a step that is not defined. -/
theorem Coupled.le_of_step_eq_none (h : n.Coupled)
    (hlt : (DiskStorage.greatestId n.store).toInt < 2 ^ 63 - 1) (hnone : step n e = none) :
    2 ^ 63 - 1 ≤ (DiskStorage.greatestId n.store).toInt + n.newIds e := by
  cases n with
  | stopped db =>
    cases e with
    | start disableS2iQueries =>
      have hgreatest := (start_eq_none hnone).2
      simp only [store] at hlt
      omega
    | query _ | disableS2i | enableS2i | stop => cases hnone
  | running s =>
    cases e with
    | query q =>
      obtain ⟨hop, henabled, hoverflow⟩ := query_eq_none hnone
      have hcounter := (h s rfl).counter
      simp only [store, newIds, hop, henabled, and_self, if_true]
      omega
    | enableS2i => exact absurd hnone enable_ne_none
    | start _ | disableS2i | stop => cases hnone

end Node

/-! ### Runs -/

theorem history_defined_iff {n : Node} (es : List Event) (hes : ∀ e ∈ es, e ≠ .start true)
    (hn : n.Coupled) (hlt : (greatestId n.store).toInt < 2 ^ 63 - 1) :
    (history n es).isSome ↔ (greatestId n.store).toInt + allocated n es < 2 ^ 63 - 1 := by
  induction es generalizing n with
  | nil => simpa [allocated] using hlt
  | cons e es ih =>
    rw [List.forall_mem_cons] at hes
    rw [allocated]
    rcases hstep : n.step e with _ | ⟨o, n'⟩
    · have hle := hn.le_of_step_eq_none hlt hstep
      rw [history, Machine.run_cons_of_none hstep]
      simp only [Option.isSome_none, Bool.false_eq_true, false_iff]
      push_cast
      omega
    · have ht := Node.transition_of_step hstep
      have hrest := ih hes.2 (ht.coupled hes.1 hn) (ht.greatestId_lt hes.1 hn hlt)
      rw [history, Machine.run_cons hstep, Option.isSome_map, hrest, ht.greatestId hn]
      simp only
      push_cast
      omega

/-- The increments of every run stay in range, and its ids are taken above the stored ones,
    exactly when the greatest id and the ids taken add up to less than `2 ^ 63 - 1`. -/
theorem allocatesInRange_iff (db : Store) (es : List Event) (hes : ∀ e ∈ es, e ≠ .start true) :
    AllocatesInRange db es ↔
      (greatestId db).toInt + allocated (.stopped db) (.start false :: es) < 2 ^ 63 - 1 := by
  have hes' : ∀ e ∈ Event.start false :: es, e ≠ .start true :=
    List.forall_mem_cons.mpr ⟨by simp, hes⟩
  have hdefined : AllocatesInRange db es ↔
      (history (.stopped db) (.start false :: es)).isSome := by
    constructor
    · rintro ⟨tr, n, h, -⟩
      rw [h]
      rfl
    · intro h
      obtain ⟨⟨tr, n⟩, h⟩ := Option.isSome_iff_exists.mp h
      have hcoupled := (coupled_history h hes' (Node.coupled_stopped db)).2
      exact ⟨tr, n, h, fun r hr => (hcoupled r hr).1.allocatesAbove⟩
  rw [hdefined]
  by_cases hlt : (greatestId db).toInt < 2 ^ 63 - 1
  · exact history_defined_iff _ hes' (Node.coupled_stopped db) hlt
  · -- the first increment overflows
    have hnone : Node.step (.stopped db) (.start false) = none := by
      rw [Option.eq_none_iff_forall_ne_some]
      rintro ⟨o, n⟩ hstep
      cases Node.transition_of_step hstep with
      | startLoaded _ cnt hcnt =>
        have hbound := cnt.toInt_lt
        omega
      | ignoredStopped _ _ he => exact absurd rfl (he false)
    rw [history, Machine.run_cons_of_none hnone]
    simp only [Option.isSome_none, Bool.false_eq_true, false_iff]
    omega

/-- A negative id, and a request that takes the last ids but one. -/
theorem allocatesInRange_iff_near_end :
    AllocatesInRange (((∅ : Store).insert (-1) [97]).insert 9223372036854775804 [98])
      [.query { op := .STR2ID, strings := [[99], [100], [99]] }] :=
  (allocatesInRange_iff _ _ (by decide)).mpr (by decide)

/-- A text dump with the line `9223372036854775807`, tab, `a` is imported, and a process
    that starts on it increments the largest id. -/
theorem not_allocatesInRange_imported :
    Restores { key := 0, memory := fun _ _ => 0 } (some ∅)
        (.ofBytes (Decimal.printInt 9223372036854775807 ++ [9, 97, 10])) false
        (some ((∅ : Store).insert Int64.maxValue [97]), .ok ()) ∧
      allocated (.stopped ((∅ : Store).insert Int64.maxValue [97])) [.start false] = 0 ∧
      Node.step (.stopped ((∅ : Store).insert Int64.maxValue [97])) (.start false) = none ∧
      ¬ AllocatesInRange ((∅ : Store).insert Int64.maxValue [97]) [] := by
  have hstep : Node.step (.stopped ((∅ : Store).insert Int64.maxValue [97])) (.start false) =
      none := by
    decide
  refine ⟨⟨2, by decide⟩, by decide, hstep, ?_⟩
  rintro ⟨tr, n, h, -⟩
  rw [history, Machine.run_cons_of_none hstep] at h
  cases h

end Numerator
