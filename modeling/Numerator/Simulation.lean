import Numerator.Machine

/-!
# Simulation between machines

A machine implements another one when every step of it is either invisible,
and then the abstract state stays where it is, or shows an event with an output
that the abstract machine answers in the same way. What a run shows is then a
run of the abstract machine. Two machines that read the same events may also go
in lockstep, and then one is defined exactly where the other one is.
-/

namespace Machine

universe u v w u' v' w'

variable {σ : Type u} {ε : Type v} {ω : Type w} {σ' : Type u'} {ε' : Type v'} {ω' : Type w'}
variable {step : σ → ε → Option (ω × σ)} {step' : σ' → ε' → Option (ω' × σ')}

/-- What a run shows to the outside. -/
def shown (visible : Record σ ε ω → Option (ε' × ω')) (tr : List (Record σ ε ω)) :
    List (ε' × ω') :=
  tr.filterMap visible

/-- The abstract state answers a visible step, and waits during an invisible one. -/
def Answers (step' : σ' → ε' → Option (ω' × σ')) (R : σ' → σ → Prop) (a : σ') (after : σ) :
    Option (ε' × ω') → Prop
  | none => R a after
  | some (e, o) => ∃ a', step' a e = some (o, a') ∧ R a' after

/-- The simulation rule. -/
theorem run_simulation (visible : Record σ ε ω → Option (ε' × ω')) (C : Record σ ε ω → Prop)
    (R : σ' → σ → Prop)
    (hsim : ∀ r a, IsStep step r → C r → R a r.before → Answers step' R a r.after (visible r))
    {s t : σ} {es : List ε} {tr : List (Record σ ε ω)} (h : run step s es = some (tr, t))
    (hC : ∀ r ∈ tr, C r) {a : σ'} (ha : R a s) :
    ∃ tr' a', run step' a ((shown visible tr).map Prod.fst) = some (tr', a') ∧
      tr'.map Record.output = (shown visible tr).map Prod.snd ∧ R a' t := by
  induction es generalizing s tr a with
  | nil =>
    cases h
    exact ⟨[], a, rfl, rfl, ha⟩
  | cons e es ih =>
    obtain ⟨o, s', tr', hstep, hrun, rfl⟩ := run_cons_eq_some.mp h
    rw [List.forall_mem_cons] at hC
    have hfirst := hsim ⟨s, e, o, s'⟩ a hstep hC.1 ha
    rcases hvisible : visible ⟨s, e, o, s'⟩ with _ | ⟨e', o'⟩
    · rw [hvisible] at hfirst
      have hshown : shown visible (⟨s, e, o, s'⟩ :: tr') = shown visible tr' := by
        rw [shown, List.filterMap_cons_none hvisible, shown]
      rw [hshown]
      exact ih hrun hC.2 hfirst
    · rw [hvisible] at hfirst
      obtain ⟨a', hanswer, ha'⟩ := hfirst
      obtain ⟨tr'', b, hrun'', houtputs, hb⟩ := ih hrun hC.2 ha'
      have hshown : shown visible (⟨s, e, o, s'⟩ :: tr') = (e', o') :: shown visible tr' := by
        rw [shown, List.filterMap_cons_some hvisible, shown]
      rw [hshown]
      refine ⟨⟨a, e', o', a'⟩ :: tr'', b, ?_, ?_, hb⟩
      · exact run_cons_eq_some.mpr ⟨o', a', tr'', hanswer, hrun'', rfl⟩
      · rw [List.map_cons, houtputs, List.map_cons]

/-- The lockstep rule: two machines that answer every event in the same way, or both not at
    all, do so over whole runs. -/
theorem run_lockstep {step : σ → ε → Option (ω × σ)} {step' : σ' → ε → Option (ω × σ')}
    (R : σ' → σ → Prop) (C : ε → Prop)
    (hstep : ∀ a s e, C e → R a s →
      Option.Rel (fun p q => p.1 = q.1 ∧ R p.2 q.2) (step' a e) (step s e))
    {a : σ'} {s : σ} (h : R a s) {es : List ε} (hes : ∀ e ∈ es, C e) :
    Option.Rel (fun p q => p.1.map Record.output = q.1.map Record.output ∧ R p.2 q.2)
      (run step' a es) (run step s es) := by
  induction es generalizing a s with
  | nil => exact .some ⟨rfl, h⟩
  | cons e es ih =>
    rw [List.forall_mem_cons] at hes
    have hfirst := hstep a s e hes.1 h
    rw [run, run]
    generalize step' a e = x at hfirst
    generalize step s e = y at hfirst
    cases hfirst with
    | none => exact .none
    | @some p q hpq =>
      obtain ⟨o, a'⟩ := p
      obtain ⟨o', s'⟩ := q
      obtain ⟨ho, hR⟩ := hpq
      have hrest := ih hR hes.2
      dsimp only at ho hrest ⊢
      generalize run step' a' es = x at hrest
      generalize run step s' es = y at hrest
      cases hrest with
      | none => exact .none
      | @some p q hpq =>
        refine .some ⟨?_, hpq.2⟩
        rw [List.map_cons, List.map_cons, hpq.1, ho]

end Machine
