import Mathlib

/-!
# Loops that need not end

A loop body that either goes on with a new state or ends with a result. `run`
goes through it a limited number of times; `Returns` says that some number of
rounds is enough. A loop that never returns has no result.
-/

namespace WhileLoop

universe u v

variable {σ : Type u} {ρ : Type v}

def run (body : σ → σ ⊕ ρ) : Nat → σ → Option ρ
  | 0, _ => none
  | fuel + 1, s =>
    match body s with
    | .inl s' => run body fuel s'
    | .inr r => some r

def Returns (body : σ → σ ⊕ ρ) (s : σ) (r : ρ) : Prop := ∃ fuel, run body fuel s = some r

variable {body : σ → σ ⊕ ρ} {s s' : σ} {r : ρ}

theorem run_add {fuel : Nat} (h : run body fuel s = some r) (k : Nat) :
    run body (fuel + k) s = some r := by
  induction fuel generalizing s with
  | zero => cases h
  | succ fuel ih =>
    rw [Nat.add_right_comm]
    rw [run] at h ⊢
    split at h
    · exact ih h
    · exact h

/-- What does not change with more fuel has one result. -/
theorem unique_of_add {α : Type*} (f : Nat → Option α) {n n' : Nat} {a a' : α}
    (hadd : ∀ n a, f n = some a → ∀ k, f (n + k) = some a) (h : f n = some a)
    (h' : f n' = some a') : a = a' := by
  have hsame := hadd n a h n'
  rw [Nat.add_comm, hadd n' a' h' n] at hsame
  exact (Option.some.inj hsame).symm

theorem returns_of_done (h : body s = .inr r) : Returns body s r := ⟨1, by rw [run, h]⟩

theorem Returns.step (h : body s = .inl s') (hr : Returns body s' r) : Returns body s r := by
  obtain ⟨fuel, hfuel⟩ := hr
  exact ⟨fuel + 1, by simp only [run, h, hfuel]⟩

theorem Returns.unique {r' : ρ} (h : Returns body s r) (h' : Returns body s r') : r = r' := by
  obtain ⟨fuel, hfuel⟩ := h
  obtain ⟨fuel', hfuel'⟩ := h'
  exact unique_of_add (fun n => run body n s) (fun _ _ => run_add) hfuel hfuel'

/-- The invariant rule for the result of a loop. -/
theorem Returns.post {I : σ → Prop} {P : ρ → Prop}
    (hstep : ∀ s s', I s → body s = .inl s' → I s')
    (hdone : ∀ s r, I s → body s = .inr r → P r) (h : Returns body s r) (hs : I s) : P r := by
  obtain ⟨fuel, hfuel⟩ := h
  induction fuel generalizing s with
  | zero => cases hfuel
  | succ fuel ih =>
    rw [run] at hfuel
    rcases hbody : body s with s' | r'
    · simp only [hbody] at hfuel
      exact ih (hstep s s' hs hbody) hfuel
    · simp only [hbody] at hfuel
      cases hfuel
      exact hdone s r hs hbody

/-- A loop with a number that every round decreases returns. -/
theorem exists_returns {I : σ → Prop} (measure : σ → Nat)
    (hstep : ∀ s s', I s → body s = .inl s' → I s' ∧ measure s' < measure s) (hs : I s) :
    ∃ r, Returns body s r := by
  induction hn : measure s using Nat.strong_induction_on generalizing s with
  | _ n ih =>
    rcases hbody : body s with s' | r
    · obtain ⟨hs', hlt⟩ := hstep s s' hs hbody
      obtain ⟨r, hr⟩ := ih (measure s') (hn ▸ hlt) hs' rfl
      exact ⟨r, hr.step hbody⟩
    · exact ⟨r, returns_of_done hbody⟩

/-- A loop that goes on as long as an invariant holds, and keeps it, does not return. -/
theorem not_returns {I : σ → Prop} (hstep : ∀ s, I s → ∃ s', body s = .inl s' ∧ I s') (hs : I s) :
    ¬ Returns body s r := by
  intro h
  refine h.post (I := I) (P := fun _ => False) ?_ ?_ hs
  · intro s s' hI hbody
    obtain ⟨t, ht, hIt⟩ := hstep s hI
    rw [hbody] at ht
    cases ht
    exact hIt
  · intro s r hI hbody
    obtain ⟨t, ht, -⟩ := hstep s hI
    rw [hbody] at ht
    cases ht

/-! ### Loops that are stopped -/

/-- Where a loop stands after so many rounds, or its result if it has ended before. -/
def after (body : σ → σ ⊕ ρ) : Nat → σ → σ ⊕ ρ
  | 0, s => .inl s
  | rounds + 1, s =>
    match body s with
    | .inl s' => after body rounds s'
    | .inr r => .inr r

theorem after_of_run {fuel : Nat} (h : run body fuel s = some r) :
    after body fuel s = .inr r := by
  induction fuel generalizing s with
  | zero => cases h
  | succ fuel ih =>
    rw [run] at h
    rw [after]
    split at h
    · exact ih h
    · cases h
      rfl

/-! ### Loops that are watched -/

section Log

variable {α : Type u} {obs : σ → List α} {xs xs' : List α} {r' : ρ}

/-- A run that also collects what is observed in each round. -/
def runLog (body : σ → σ ⊕ ρ) (obs : σ → List α) : Nat → σ → Option (List α × ρ)
  | 0, _ => none
  | fuel + 1, s =>
    match body s with
    | .inl s' => (runLog body obs fuel s').map fun p => (obs s ++ p.1, p.2)
    | .inr r => some (obs s, r)

/-- The loop returns, and this has been observed until then. -/
def Logs (body : σ → σ ⊕ ρ) (obs : σ → List α) (s : σ) (xs : List α) (r : ρ) : Prop :=
  ∃ fuel, runLog body obs fuel s = some (xs, r)

theorem logs_of_done (obs : σ → List α) (h : body s = .inr r) : Logs body obs s (obs s) r :=
  ⟨1, by simp only [runLog, h]⟩

theorem Logs.step (h : body s = .inl s') (hr : Logs body obs s' xs r) :
    Logs body obs s (obs s ++ xs) r := by
  obtain ⟨fuel, hfuel⟩ := hr
  exact ⟨fuel + 1, by simp only [runLog, h, hfuel, Option.map_some]⟩

theorem runLog_add {fuel : Nat} (h : runLog body obs fuel s = some (xs, r)) (k : Nat) :
    runLog body obs (fuel + k) s = some (xs, r) := by
  induction fuel generalizing s xs with
  | zero => cases h
  | succ fuel ih =>
    rw [Nat.add_right_comm]
    rw [runLog] at h ⊢
    rcases hbody : body s with s' | r₁
    · rw [hbody] at h
      obtain ⟨⟨ys, r₂⟩, hrest, heq⟩ := Option.map_eq_some_iff.mp h
      cases heq
      simp only [ih hrest, Option.map_some]
    · rw [hbody] at h
      exact h

theorem Logs.unique (h : Logs body obs s xs r) (h' : Logs body obs s xs' r') :
    xs = xs' ∧ r = r' := by
  obtain ⟨fuel, hfuel⟩ := h
  obtain ⟨fuel', hfuel'⟩ := h'
  have hsame := unique_of_add (fun n => runLog body obs n s) (fun _ _ => runLog_add) hfuel hfuel'
  exact Prod.mk.inj hsame

theorem Logs.returns (h : Logs body obs s xs r) : Returns body s r := by
  obtain ⟨fuel, hfuel⟩ := h
  refine ⟨fuel, ?_⟩
  induction fuel generalizing s xs with
  | zero => cases hfuel
  | succ fuel ih =>
    rw [runLog] at hfuel
    rw [run]
    rcases hbody : body s with s' | r₁
    · rw [hbody] at hfuel
      obtain ⟨⟨ys, r₂⟩, hrest, heq⟩ := Option.map_eq_some_iff.mp hfuel
      cases heq
      exact ih hrest
    · rw [hbody] at hfuel
      cases hfuel
      rfl

end Log

end WhileLoop
