import Mathlib

/-!
# First occurrences

The elements of a list at which a value of `f` occurs for the first time, in
their order.
-/

namespace FirstOccurrences

universe u v

variable {α : Type u} {κ : Type v} [DecidableEq κ]

def firsts (f : α → κ) (xs : List α) : List α := xs.eraseDupsBy fun x y => decide (f x = f y)

variable {f : α → κ} {xs : List α} {x : α}

@[simp] theorem firsts_nil : firsts f [] = [] := rfl

theorem firsts_cons : firsts f (x :: xs) = x :: firsts f (xs.filter fun y => f y ≠ f x) := by
  rw [firsts, List.eraseDupsBy_cons]
  simp [firsts]

theorem firsts_concat :
    firsts f (xs ++ [x]) = firsts f xs ++ if ∃ y ∈ xs, f y = f x then [] else [x] := by
  induction hlength : xs.length using Nat.strong_induction_on generalizing xs with
  | _ n ih =>
    cases xs with
    | nil => simp [firsts_cons]
    | cons a xs =>
      rw [List.cons_append, firsts_cons, firsts_cons, List.filter_append]
      by_cases hx : f x = f a
      · simp [hx]
      · have hsmaller : (xs.filter fun y => f y ≠ f a).length < n := by
          have hle := List.length_filter_le (fun y => decide (f y ≠ f a)) xs
          rw [List.length_cons] at hlength
          omega
        have hlast : [x].filter (fun y => decide (f y ≠ f a)) = [x] := by simp [hx]
        rw [hlast, ih _ hsmaller rfl, List.cons_append]
        -- an element with the value of `x` does not have the one of `a`
        have hsame : (∃ y ∈ xs.filter (fun y => f y ≠ f a), f y = f x) ↔
            ∃ y ∈ a :: xs, f y = f x := by
          constructor
          · rintro ⟨y, hy, heq⟩
            exact ⟨y, List.mem_cons_of_mem a (List.mem_of_mem_filter hy), heq⟩
          · rintro ⟨y, hy, heq⟩
            rcases List.mem_cons.mp hy with rfl | hy
            · exact absurd heq.symm hx
            · exact ⟨y, List.mem_filter.mpr ⟨hy, by simpa [heq] using hx⟩, heq⟩
        simp only [hsame]

theorem mem_map_firsts {k : κ} : k ∈ (firsts f xs).map f ↔ ∃ x ∈ xs, f x = k := by
  induction xs using List.reverseRecOn with
  | nil => simp
  | append_singleton xs x ih =>
    rw [firsts_concat, List.map_append, List.mem_append, ih]
    split
    · rename_i hold
      obtain ⟨y, hy, heq⟩ := hold
      constructor
      · rintro (⟨z, hz, hk⟩ | hk)
        · exact ⟨z, List.mem_append_left _ hz, hk⟩
        · cases hk
      · rintro ⟨z, hz, hk⟩
        rcases List.mem_append.mp hz with hz | hz
        · exact Or.inl ⟨z, hz, hk⟩
        · rw [List.mem_singleton.mp hz] at hk
          exact Or.inl ⟨y, hy, heq.trans hk⟩
    · simp only [List.map_cons, List.map_nil, List.mem_singleton, List.mem_append, or_and_right,
        exists_or, exists_eq_left]
      rw [eq_comm]

theorem nodup_map_firsts : ((firsts f xs).map f).Nodup := by
  induction xs using List.reverseRecOn with
  | nil => simp
  | append_singleton xs x ih =>
    rw [firsts_concat]
    split
    · simpa using ih
    · rename_i hnew
      rw [List.map_append, List.nodup_append]
      refine ⟨ih, by simp, ?_⟩
      rintro k hk k' hk' rfl
      rw [mem_map_firsts] at hk
      obtain ⟨y, hy, heq⟩ := hk
      rw [List.map_singleton, List.mem_singleton] at hk'
      exact hnew ⟨y, hy, heq.trans hk'⟩

end FirstOccurrences
