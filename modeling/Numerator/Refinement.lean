import Numerator.Coupling
import Numerator.PartialNumbering

/-!
# The store as a numbering

A store stands for a partial numbering of C strings: each has the id under which
a load puts it into memory. A step of a loaded process refines the contract of
`PartialNumbering`: STR2ID answers from the numbering and may add to it, and
every other event leaves it alone. What two answers of a history have to do with
each other is then a fact about numberings.
-/

namespace Numerator

open Std FiniteMap DiskStorage PartialNumbering

def numbering (db : Store) : PartialNumbering CString NumID := ofIndex CString.order cstr db

@[simp] theorem number_numbering (db : Store) (k : CString) :
    (numbering db).number k = (memoryOf db)[k]? := rfl

/-- The strings and ids that a response to STR2ID pairs up. -/
def answered : Event → Outcome → List (Bytes × NumID)
  | .query q, .response r => if q.op = .STR2ID then q.strings.zip r.ids else []
  | _, _ => []

/-- What a response tells about the numbering of C strings. -/
def observed (e : Event) (o : Outcome) : List (CString × NumID) :=
  (answered e o).map fun p => (cstr p.1, p.2)

theorem mem_observed {e : Event} {o : Outcome} {s : Bytes} {id : NumID}
    (h : (s, id) ∈ answered e o) : (cstr s, id) ∈ observed e o :=
  List.mem_map_of_mem (f := fun p : Bytes × NumID => (cstr p.1, p.2)) h

theorem mem_strings_of_answered {e : Event} {o : Outcome} {p : Bytes × NumID}
    (h : p ∈ answered e o) : ∃ q, e = .query q ∧ p.1 ∈ q.strings := by
  unfold answered at h
  split at h
  · rename_i q r
    split at h
    · exact ⟨q, rfl, (List.of_mem_zip h).1⟩
    · cases h
  · cases h

/-- The batch of a query answers the request on the level of numberings. -/
theorem answers_putBatch {db : Store} {c : NumID} {strings : List Bytes} {l : Server.Loop}
    (h : Server.Numbered (memoryOf db) c strings l)
    (hfree : ∀ p ∈ l.kvPairs, db[p.key]? = none) :
    Answers (numbering db) ((strings.zip l.ids).map fun p => (cstr p.1, p.2))
      (numbering (putBatch db l.kvPairs)) := by
  have hmemory := memoryOf_putBatch h hfree
  apply answers_putAll h.keys_nodup h.distinct hfree h.fresh
  · intro p hp
    obtain ⟨⟨s, id⟩, hzip, rfl⟩ := List.mem_map.mp hp
    change (memoryOf (putBatch db l.kvPairs))[cstr s]? = some id
    rw [hmemory]
    exact h.mem_ids hzip
  · intro p hp
    obtain ⟨id, hzip, hid⟩ := h.isSome_of_mem (h.requested p hp)
    have hkey : l.memoryStorage[cstr p.value]? = some p.key :=
      h.mem_iff.mpr (Or.inl ⟨p, hp, rfl, rfl⟩)
    rw [hid] at hkey
    cases hkey
    exact List.mem_map.mpr ⟨(p.value, p.key), hzip, rfl⟩

namespace Node

variable {n n' : Node} {e : Event} {o : Outcome}

/-- One step of the service is one request to the numbering of its store. -/
theorem Transition.refines (h : Transition n e o n') (hn : n.Loaded) (hfresh : FreshIds n e) :
    Answers (numbering n.store) (observed e o) (numbering n'.store) := by
  cases h with
  | number s q l hop henabled hrounds =>
    have hl := (hn s rfl).numbered henabled hrounds
    simp only [observed, answered, hop, if_true]
    exact answers_putBatch hl (hfresh.free hop henabled (hn s rfl) hl)
  | lookup s q hop | unknown s q code hop =>
    simp only [observed, answered, hop, reduceCtorEq, if_false, List.map_nil]
    exact answers_nil_iff.mpr fun _ => rfl
  | ignoredStopped db e he => cases e <;> exact answers_nil_iff.mpr fun _ => rfl
  | _ => exact answers_nil_iff.mpr fun _ => rfl

end Node

/-! ### Histories of a coupled process -/

section History

variable {n n' : Node} {es : List Event} {tr : List (Machine.Record Node Event Outcome)}

/-- A number given out once stays, and every answer of the history agrees with it. -/
theorem agree_history (h : history n es = some (tr, n')) (hes : ∀ e ∈ es, e ≠ .start true)
    (hn : n.Coupled) {k : CString} {id : NumID} (hk : (numbering n.store).number k = some id) :
    (numbering n'.store).number k = some id ∧
      ∀ r ∈ tr, ∀ p ∈ observed r.event r.output, k = p.1 ↔ id = p.2 := by
  have hcoupled := (coupled_history h hes hn).2
  obtain ⟨hend, hsteps⟩ := Machine.run_invariant _
    (fun n => (numbering n.store).number k = some id)
    (fun r hr (hbefore : r.before.Coupled) hk => ((Node.transition_of_step hr).refines
      hbefore.loaded (hbefore.freshIds r.event)).keeps k id hk) h
    (fun r hr => (hcoupled r hr).1) hk
  refine ⟨hend, ?_⟩
  intro r hr p hp
  have hbefore := (hcoupled r hr).1
  exact ((Node.transition_of_step (Machine.isStep_of_run h r hr)).refines hbefore.loaded
    (hbefore.freshIds r.event)).agree (hsteps r hr).1 hp

/-- What the history answered is the numbering at its end. -/
theorem answered_history (h : history n es = some (tr, n')) (hes : ∀ e ∈ es, e ≠ .start true)
    (hn : n.Coupled) : ∀ r ∈ tr, ∀ p ∈ observed r.event r.output,
      (numbering n'.store).number p.1 = some p.2 := by
  induction es generalizing n tr with
  | nil =>
    cases h
    simp
  | cons e es ih =>
    obtain ⟨o, s, tr', hstep, hrun, rfl⟩ := Machine.run_cons_eq_some.mp h
    rw [List.forall_mem_cons] at hes ⊢
    have ht := Node.transition_of_step hstep
    have hs := ht.coupled hes.1 hn
    refine ⟨?_, ih hrun hes.2 hs⟩
    intro p hp
    exact (agree_history hrun hes.2 hs
      ((ht.refines hn.loaded (hn.freshIds e)).answered p hp)).1

end History

end Numerator
