import Mathlib

/-!
# Runs of a partial machine

A machine reads one event after another; a step yields an output and the next
state, or nothing where the behaviour is not defined. `run` collects the steps
of a whole event list. The rules below lift what one step preserves to whole
runs, under a condition that every step of the run is known to meet.
-/

namespace Machine

universe u v w

/-- One step of a run: the state it starts from, the event, what it puts out and
    the state it leaves. -/
structure Record (σ : Type u) (ε : Type v) (ω : Type w) where
  before : σ
  event : ε
  output : ω
  after : σ

variable {σ : Type u} {ε : Type v} {ω : Type w}

/-- Run the events in order. The run is defined when every step is. -/
def run (step : σ → ε → Option (ω × σ)) :
    σ → List ε → Option (List (Record σ ε ω) × σ)
  | s, [] => some ([], s)
  | s, e :: es =>
    match step s e with
    | none => none
    | some (o, s') =>
      match run step s' es with
      | none => none
      | some (tr, t) => some (⟨s, e, o, s'⟩ :: tr, t)

variable {step : σ → ε → Option (ω × σ)}

/-- The record is a step of the machine. -/
def IsStep (step : σ → ε → Option (ω × σ)) (r : Record σ ε ω) : Prop :=
  step r.before r.event = some (r.output, r.after)

@[simp] theorem run_nil (s : σ) : run step s [] = some ([], s) := rfl

theorem run_cons_eq_some {s t : σ} {e : ε} {es : List ε} {tr : List (Record σ ε ω)} :
    run step s (e :: es) = some (tr, t) ↔
      ∃ o s' tr', step s e = some (o, s') ∧ run step s' es = some (tr', t) ∧
        tr = ⟨s, e, o, s'⟩ :: tr' := by
  rw [run]
  rcases hstep : step s e with _ | ⟨o, s'⟩
  · simp
  · rcases hrun : run step s' es with _ | ⟨tr', t'⟩
    · simp [hrun]
    · simp only [hrun, Option.some.injEq, Prod.mk.injEq]
      constructor
      · rintro ⟨rfl, rfl⟩
        exact ⟨o, s', tr', ⟨rfl, rfl⟩, hrun, rfl⟩
      · rintro ⟨o', u, tr'', ⟨rfl, rfl⟩, hrun', rfl⟩
        rw [hrun] at hrun'
        cases hrun'
        exact ⟨rfl, rfl⟩

theorem run_append_eq_some {s t : σ} {es es' : List ε} {tr : List (Record σ ε ω)} :
    run step s (es ++ es') = some (tr, t) ↔
      ∃ u tr₁ tr₂, run step s es = some (tr₁, u) ∧ run step u es' = some (tr₂, t) ∧
        tr = tr₁ ++ tr₂ := by
  induction es generalizing s tr with
  | nil =>
    constructor
    · intro h
      exact ⟨s, [], tr, rfl, h, rfl⟩
    · rintro ⟨u, tr₁, tr₂, h₁, h₂, rfl⟩
      cases h₁
      exact h₂
  | cons e es ih =>
    rw [List.cons_append, run_cons_eq_some]
    constructor
    · rintro ⟨o, s', tr', hstep, hrun, rfl⟩
      obtain ⟨u, tr₁, tr₂, h₁, h₂, rfl⟩ := ih.mp hrun
      exact ⟨u, ⟨s, e, o, s'⟩ :: tr₁, tr₂,
        run_cons_eq_some.mpr ⟨o, s', tr₁, hstep, h₁, rfl⟩, h₂, rfl⟩
    · rintro ⟨u, tr₁, tr₂, h₁, h₂, rfl⟩
      obtain ⟨o, s', tr', hstep, hrun, rfl⟩ := run_cons_eq_some.mp h₁
      exact ⟨o, s', tr' ++ tr₂, hstep, ih.mpr ⟨u, tr', tr₂, hrun, h₂, rfl⟩, rfl⟩

theorem run_cons {s s' : σ} {e : ε} {o : ω} {es : List ε} (hstep : step s e = some (o, s')) :
    run step s (e :: es) =
      (run step s' es).map fun p => (⟨s, e, o, s'⟩ :: p.1, p.2) := by
  rw [run, hstep]
  rcases hrun : run step s' es with _ | ⟨tr, t⟩ <;> simp only [hrun] <;> rfl

theorem run_cons_of_none {s : σ} {e : ε} {es : List ε} (hstep : step s e = none) :
    run step s (e :: es) = none := by
  rw [run, hstep]

theorem exists_run_cons {s s' t : σ} {e : ε} {o : ω} {es : List ε}
    (hstep : step s e = some (o, s')) (h : ∃ tr, run step s' es = some (tr, t)) :
    ∃ tr, run step s (e :: es) = some (tr, t) := by
  obtain ⟨tr, htr⟩ := h
  exact ⟨_, run_cons_eq_some.mpr ⟨o, s', tr, hstep, htr, rfl⟩⟩

theorem exists_run_append {s u t : σ} {es es' : List ε}
    (h : ∃ tr, run step s es = some (tr, u)) (h' : ∃ tr, run step u es' = some (tr, t)) :
    ∃ tr, run step s (es ++ es') = some (tr, t) := by
  obtain ⟨tr, htr⟩ := h
  obtain ⟨tr', htr'⟩ := h'
  exact ⟨_, run_append_eq_some.mpr ⟨u, tr, tr', htr, htr', rfl⟩⟩

theorem run_append {s t : σ} {es es' : List ε} {tr : List (Record σ ε ω)}
    (h : run step s es = some (tr, t)) :
    run step s (es ++ es') = (run step t es').map fun p => (tr ++ p.1, p.2) := by
  rcases hrest : run step t es' with _ | ⟨tr', u⟩
  · rw [Option.map_none, Option.eq_none_iff_forall_ne_some]
    rintro ⟨tr₀, u⟩ happ
    obtain ⟨t', tr₁, tr₂, h₁, h₂, -⟩ := run_append_eq_some.mp happ
    rw [h] at h₁
    cases h₁
    rw [hrest] at h₂
    cases h₂
  · exact run_append_eq_some.mpr ⟨t, tr, tr', h, hrest, rfl⟩

section Rules

variable {s t : σ} {es : List ε} {tr : List (Record σ ε ω)}

theorem map_event_of_run (h : run step s es = some (tr, t)) : tr.map Record.event = es := by
  induction es generalizing s tr with
  | nil =>
    cases h
    rfl
  | cons e es ih =>
    obtain ⟨o, s', tr', -, hrun, rfl⟩ := run_cons_eq_some.mp h
    rw [List.map_cons, ih hrun]

theorem event_mem_of_run (h : run step s es = some (tr, t)) {r : Record σ ε ω}
    (hr : r ∈ tr) : r.event ∈ es := by
  rw [← map_event_of_run h]
  exact List.mem_map_of_mem hr

theorem isStep_of_run (h : run step s es = some (tr, t)) : ∀ r ∈ tr, IsStep step r := by
  induction es generalizing s tr with
  | nil =>
    cases h
    simp
  | cons e es ih =>
    obtain ⟨o, s', tr', hstep, hrun, rfl⟩ := run_cons_eq_some.mp h
    rw [List.forall_mem_cons]
    exact ⟨hstep, ih hrun⟩

variable (C : Record σ ε ω → Prop) (Inv : σ → Prop)

/-- The invariant rule. What every step meeting `C` preserves holds before and
    after every step of a run whose steps all meet `C`, and at its end. -/
theorem run_invariant (hinv : ∀ r, IsStep step r → C r → Inv r.before → Inv r.after)
    (h : run step s es = some (tr, t)) (hC : ∀ r ∈ tr, C r) (hs : Inv s) :
    Inv t ∧ ∀ r ∈ tr, Inv r.before ∧ Inv r.after := by
  induction es generalizing s tr with
  | nil =>
    cases h
    exact ⟨hs, by simp⟩
  | cons e es ih =>
    obtain ⟨o, s', tr', hstep, hrun, rfl⟩ := run_cons_eq_some.mp h
    rw [List.forall_mem_cons] at hC
    have hs' : Inv s' := hinv ⟨s, e, o, s'⟩ hstep hC.1 hs
    obtain ⟨ht, htr⟩ := ih hrun hC.2 hs'
    refine ⟨ht, ?_⟩
    rw [List.forall_mem_cons]
    exact ⟨⟨hs, hs'⟩, htr⟩

variable (Past : Record σ ε ω → σ → Prop) (R : Record σ ε ω → Record σ ε ω → Prop)

/-- The rule for pairs of steps. When every step `q` establishes `Past q`, later
    steps keep it, and it relates `q` to the next step from such a state, then any
    two steps of the run are related in the order in which they were made. -/
theorem run_pairwise (hinv : ∀ r, IsStep step r → C r → Inv r.before → Inv r.after)
    (hpast : ∀ r, IsStep step r → C r → Inv r.before → Past r r.after)
    (hkeep : ∀ q r, IsStep step r → C r → Inv r.before → Past q r.before → Past q r.after)
    (huse : ∀ q r, IsStep step r → C r → Inv r.before → Past q r.before → R q r)
    (h : run step s es = some (tr, t)) (hC : ∀ r ∈ tr, C r) (hs : Inv s) :
    tr.Pairwise R ∧ ∀ r ∈ tr, Past r t := by
  induction es generalizing s tr with
  | nil =>
    cases h
    simp
  | cons e es ih =>
    obtain ⟨o, s', tr', hstep, hrun, rfl⟩ := run_cons_eq_some.mp h
    rw [List.forall_mem_cons] at hC
    have hs' : Inv s' := hinv ⟨s, e, o, s'⟩ hstep hC.1 hs
    obtain ⟨hpair, hend⟩ := ih hrun hC.2 hs'
    -- what the first step established holds through the rest of the run
    obtain ⟨ht, htr⟩ := run_invariant C (fun u => Inv u ∧ Past ⟨s, e, o, s'⟩ u)
      (fun r hr hCr hu => ⟨hinv r hr hCr hu.1, hkeep _ r hr hCr hu.1 hu.2⟩) hrun hC.2
      ⟨hs', hpast ⟨s, e, o, s'⟩ hstep hC.1 hs⟩
    rw [List.pairwise_cons, List.forall_mem_cons]
    refine ⟨⟨fun r hr => ?_, hpair⟩, ht.2, hend⟩
    obtain ⟨hbefore, hq⟩ := (htr r hr).1
    exact huse _ r (isStep_of_run hrun r hr) (hC.2 r hr) hbefore hq

/-- The potential rule. When no step spends more than the potential and what its event
    grants, no run does. -/
theorem run_potential (potential : σ → Nat) (spent granted : ε → Nat)
    (hstep : ∀ r, IsStep step r →
      potential r.after + spent r.event ≤ potential r.before + granted r.event)
    (h : run step s es = some (tr, t)) :
    potential t + (es.map spent).sum ≤ potential s + (es.map granted).sum := by
  induction es generalizing s tr with
  | nil =>
    cases h
    rfl
  | cons e es ih =>
    obtain ⟨o, s', tr', hfirst, hrun, rfl⟩ := run_cons_eq_some.mp h
    have hone : potential s' + spent e ≤ potential s + granted e := hstep ⟨s, e, o, s'⟩ hfirst
    have hrest := ih hrun
    simp only [List.map_cons, List.sum_cons]
    omega

end Rules

end Machine
