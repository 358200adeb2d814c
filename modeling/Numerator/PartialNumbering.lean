import Numerator.FiniteMap

/-!
# Numberings

The abstract model of a numbering service: a partial injective map from keys to
numbers. A request may number further keys, and it must answer with the numbers
that its keys have afterwards; it never takes a number away and never changes
one. Everything a client may rely on over a whole history (one key, one number;
one number, one key) follows from this contract alone.
-/

universe u

/-- A partial injective map from keys to numbers. -/
structure PartialNumbering (κ ι : Type u) where
  number : κ → Option ι
  injective : ∀ k k' i, number k = some i → number k' = some i → k = k'

namespace PartialNumbering

variable {κ ι : Type u} {N N' : PartialNumbering κ ι} {obs : List (κ × ι)}

/-- Every number given out by `N` is still given out by `N'`. -/
def Keeps (N N' : PartialNumbering κ ι) : Prop := ∀ k i, N.number k = some i → N'.number k = some i

theorem Keeps.refl (N : PartialNumbering κ ι) : Keeps N N := fun _ _ h => h

/-- A request that is answered with the pairs `obs` may take `N` to `N'`: numbers are
    kept, the answers are the numbers of `N'`, and only answered keys are new. -/
structure Answers (N : PartialNumbering κ ι) (obs : List (κ × ι))
    (N' : PartialNumbering κ ι) : Prop where
  keeps : Keeps N N'
  answered : ∀ p ∈ obs, N'.number p.1 = some p.2
  only : ∀ k i, N'.number k = some i → N.number k = some i ∨ (k, i) ∈ obs

/-- A request without an answer leaves the numbering alone. -/
theorem answers_nil_iff : Answers N [] N' ↔ ∀ k, N.number k = N'.number k := by
  constructor
  · rintro ⟨hkeeps, -, honly⟩ k
    apply Option.ext
    intro i
    exact ⟨hkeeps k i, fun h => by simpa using honly k i h⟩
  · intro h
    refine ⟨fun k i hk => h k ▸ hk, by simp, fun k i hk => ?_⟩
    rw [h k]
    exact Or.inl hk

/-- An answer agrees with every number given out before: equal keys have equal numbers
    and equal numbers belong to equal keys. -/
theorem Answers.agree (h : Answers N obs N') {k : κ} {i : ι} (hk : N.number k = some i)
    {q : κ × ι} (hq : q ∈ obs) : k = q.1 ↔ i = q.2 := by
  have hk' : N'.number k = some i := h.keeps k i hk
  have hq' : N'.number q.1 = some q.2 := h.answered q hq
  constructor
  · intro heq
    rw [heq, hq'] at hk'
    exact (Option.some.inj hk').symm
  · intro heq
    exact N'.injective _ _ _ hk' (heq ▸ hq')

/-! ### The numbering of an inverse index -/

section OfIndex

open Std FiniteMap

variable {α β γ : Type u} {cmp : α → α → Ordering} {cmpκ : κ → κ → Ordering}
variable [TransCmp cmp] [TransCmp cmpκ] [LawfulEqCmp cmp] [LawfulEqCmp cmpκ]

/-- The index of a finite map along `f` numbers every `f`-value by a key that
    carries it, so no key is the number of two values. -/
def ofIndex (cmpκ : κ → κ → Ordering) [TransCmp cmpκ] [LawfulEqCmp cmpκ] (f : β → κ)
    (m : ExtTreeMap α β cmp) : PartialNumbering κ α where
  number k := (index cmpκ f m)[k]?
  injective k k' i hk hk' := by
    obtain ⟨b, hb, rfl⟩ := (getElem?_index.mp hk).carried
    obtain ⟨b', hb', rfl⟩ := (getElem?_index.mp hk').carried
    rw [hb] at hb'
    cases hb'
    rfl

/-- Puts of new entries with new `f`-values answer a request for these values. -/
theorem answers_putAll {f : β → κ} {m : ExtTreeMap α β cmp} {key : γ → α} {val : γ → β}
    {l : List γ} (hkey : (l.map key).Nodup) (hval : (l.map fun x => f (val x)).Nodup)
    (hm : ∀ x ∈ l, m[key x]? = none)
    (hf : ∀ x ∈ l, (index cmpκ f m)[f (val x)]? = none) {obs : List (κ × α)}
    (hobs : ∀ p ∈ obs, (index cmpκ f (putAll key val m l))[p.1]? = some p.2)
    (hnew : ∀ x ∈ l, (f (val x), key x) ∈ obs) :
    Answers (ofIndex cmpκ f m) obs (ofIndex cmpκ f (putAll key val m l)) := by
  have hindex := index_putAll hkey hval hm hf
  refine ⟨?_, hobs, ?_⟩
  · intro k i hk
    change (index cmpκ f (putAll key val m l))[k]? = some i
    rw [hindex]
    exact extends_putAll (fun x hx => hf x hx) k i hk
  · intro k i hk
    change (index cmpκ f (putAll key val m l))[k]? = some i at hk
    rw [hindex, getElem?_putAll_eq_some hval] at hk
    rcases hk with ⟨x, hx, rfl, rfl⟩ | ⟨-, hk⟩
    · exact Or.inr (hnew x hx)
    · exact Or.inl hk

end OfIndex

end PartialNumbering
