import Mathlib

/-!
# Batches that are cut by a counter

Items are collected in a list that is handed over when a counter beside it has
reached a limit. The counter goes around at a modulus, and nothing ties its first
value to the list. If it is behind the items, a batch gets too long or the last
items are left behind.
-/

namespace CountedBatches

universe u

variable {ι : Type u}

/-- The batches of the items `xs`, the last of which is what the counter takes for a rest. -/
def batches (m limit : Nat) : Nat → List ι → List ι → List (List ι)
  | cnt, pending, [] => if 0 < cnt then [pending] else []
  | cnt, pending, x :: xs =>
    if limit ≤ (cnt + 1) % m then (pending ++ [x]) :: batches m limit 0 [] xs
    else batches m limit ((cnt + 1) % m) (pending ++ [x]) xs

variable {m limit cnt : Nat} {pending xs batch : List ι} {x : ι}

/-- An item of a batch comes from the pending or from the remaining ones. -/
theorem mem_of_mem_batches (hbatch : batch ∈ batches m limit cnt pending xs) (hx : x ∈ batch) :
    x ∈ pending ∨ x ∈ xs := by
  induction xs generalizing cnt pending with
  | nil =>
    rw [batches] at hbatch
    split at hbatch
    · rw [List.mem_singleton] at hbatch
      exact Or.inl (hbatch ▸ hx)
    · cases hbatch
  | cons y xs ih =>
    have hmoved : x ∈ pending ++ [y] → x ∈ pending ∨ x ∈ y :: xs := by
      intro hmem
      rw [List.mem_append, List.mem_singleton] at hmem
      exact hmem.imp_right fun heq => List.mem_cons.mpr (Or.inl heq)
    rw [batches] at hbatch
    split at hbatch
    · rcases List.mem_cons.mp hbatch with rfl | hrest
      · exact hmoved hx
      · have htail := (ih hrest).resolve_left List.not_mem_nil
        exact Or.inr (List.mem_cons_of_mem y htail)
    · rcases ih hbatch with hpending | htail
      · exact hmoved hpending
      · exact Or.inr (List.mem_cons_of_mem y htail)

/-! ### A counter that is not behind -/

/-- The counter is ahead of the pending items, and will not go around at the next one. -/
structure InStep (m limit cnt : Nat) (pending : List ι) : Prop where
  ahead : pending.length ≤ cnt
  room : cnt + 1 < m
  short : pending.length < limit

/-- Then every item is in one batch, in the order of the items, and no batch is too long. -/
theorem InStep.exact (h : InStep m limit cnt pending) (hlimit : limit < m) (xs : List ι) :
    (batches m limit cnt pending xs).flatten = pending ++ xs ∧
      ∀ batch ∈ batches m limit cnt pending xs, batch.length ≤ limit := by
  induction xs generalizing cnt pending with
  | nil =>
    rw [batches]
    split
    · simpa using h.short.le
    · rename_i hzero
      have hnil : pending = [] := by
        rw [← List.length_eq_zero_iff]
        have hahead := h.ahead
        omega
      simp [hnil]
  | cons x xs ih =>
    rw [batches, Nat.mod_eq_of_lt h.room]
    have hshort := h.short
    have hlength : (pending ++ [x]).length = pending.length + 1 := List.length_append
    split
    · have hempty : InStep m limit 0 ([] : List ι) := ⟨le_rfl, by omega, by simp; omega⟩
      obtain ⟨hflatten, hbounded⟩ := ih hempty
      refine ⟨by rw [List.flatten_cons, hflatten]; simp, ?_⟩
      rw [List.forall_mem_cons]
      exact ⟨by omega, hbounded⟩
    · have hahead := h.ahead
      have hnext : InStep m limit (cnt + 1) (pending ++ [x]) := ⟨by omega, by omega, by omega⟩
      obtain ⟨hflatten, hbounded⟩ := ih hnext
      exact ⟨by rw [hflatten]; simp, hbounded⟩

/-! ### A counter that is one behind -/

/-- One item more is pending than the counter knows. -/
structure Behind (limit cnt : Nat) (pending : List ι) : Prop where
  behind : pending.length = cnt + 1
  below : cnt < limit

/-- The items that stay below the limit are one batch, unless there is only one. -/
theorem Behind.rest (h : Behind limit cnt pending) (hlimit : limit < m) (xs : List ι)
    (hxs : cnt + xs.length < limit) :
    batches m limit cnt pending xs = if 0 < cnt + xs.length then [pending ++ xs] else [] := by
  induction xs generalizing cnt pending with
  | nil => simp [batches]
  | cons x xs ih =>
    rw [List.length_cons] at hxs
    have hnext : Behind limit (cnt + 1) (pending ++ [x]) := ⟨by simp [h.behind], by omega⟩
    have hsum : cnt + (x :: xs).length = cnt + 1 + xs.length := by
      rw [List.length_cons]
      omega
    rw [batches, Nat.mod_eq_of_lt (by omega), if_neg (by omega), ih hnext (by omega), hsum,
      List.append_assoc]
    rfl

/-- With more items the first batch is one too long. -/
theorem Behind.exceeds (h : Behind limit cnt pending) (hlimit : limit < m) (xs : List ι)
    (hxs : limit ≤ cnt + xs.length) :
    ∃ batch ∈ batches m limit cnt pending xs, batch.length = limit + 1 := by
  induction xs generalizing cnt pending with
  | nil =>
    have hbelow := h.below
    rw [List.length_nil] at hxs
    omega
  | cons x xs ih =>
    rw [List.length_cons] at hxs
    have hbelow := h.below
    have hlength : (pending ++ [x]).length = cnt + 1 + 1 := by
      rw [List.length_append, h.behind]
      rfl
    rw [batches, Nat.mod_eq_of_lt (by omega)]
    split
    · exact ⟨_, List.mem_cons_self, by omega⟩
    · exact ih ⟨hlength, by omega⟩ (by omega)

/-! ### From any value of the counter -/

/-- The counter goes around at the first item, and either this is the only item or there are
    more than one batch takes. -/
def Wraps (m limit cnt : Nat) (xs : List ι) : Prop :=
  cnt + 1 = m ∧ (xs.length = 1 ∨ limit < xs.length)

theorem batches_cons_of_wraps (hcnt : cnt + 1 = m) (hpos : 0 < limit) (x : ι) (xs : List ι) :
    batches m limit cnt [] (x :: xs) = batches m limit 0 [x] xs := by
  rw [batches, hcnt, Nat.mod_self, if_neg (by omega), List.nil_append]

theorem behind_singleton (hpos : 0 < limit) (x : ι) : Behind limit 0 [x] := ⟨rfl, hpos⟩

theorem batches_exact (hpos : 0 < limit) (hlimit : limit < m) (hcnt : cnt < m)
    (h : ¬ Wraps m limit cnt xs) :
    (batches m limit cnt [] xs).flatten = xs ∧
      ∀ batch ∈ batches m limit cnt [] xs, batch.length ≤ limit := by
  by_cases hlast : cnt + 1 = m
  · cases xs with
    | nil =>
      rw [batches]
      split <;> simp
    | cons x xs =>
      have hshort : 0 < xs.length ∧ xs.length < limit := by
        simp only [Wraps, hlast, true_and, List.length_cons, not_or] at h
        omega
      have hrest := (behind_singleton hpos x).rest hlimit xs (by omega)
      rw [batches_cons_of_wraps hlast hpos, hrest, if_pos (by omega)]
      simpa using hshort.2
  · have hstep : InStep m limit cnt ([] : List ι) := ⟨Nat.zero_le cnt, by omega, hpos⟩
    exact hstep.exact hlimit xs

/-- When the counter goes around, items are lost or a batch gets too long. -/
theorem batches_of_wraps (h : Wraps m limit cnt xs) (hpos : 0 < limit) (hlimit : limit < m) :
    (xs.length = 1 ∧ batches m limit cnt [] xs = []) ∨
      ∃ batch ∈ batches m limit cnt [] xs, limit < batch.length := by
  obtain ⟨hlast, hxs⟩ := h
  cases xs with
  | nil =>
    rw [List.length_nil] at hxs
    omega
  | cons x xs =>
    rw [batches_cons_of_wraps hlast hpos]
    rw [List.length_cons] at hxs ⊢
    rcases hxs with hone | hmany
    · have hnil : xs = [] := List.length_eq_zero_iff.mp (by omega)
      exact Or.inl ⟨hone, by rw [hnil]; rfl⟩
    · obtain ⟨batch, hbatch, hlength⟩ :=
        (behind_singleton hpos x).exceeds hlimit xs (by omega)
      exact Or.inr ⟨batch, hbatch, by omega⟩

/-! ### Nothing left behind -/

/-- A counter that is not 0 while items are pending leaves none of them behind. -/
theorem flatten_batches_of_pos (hlimit : limit < m) (hcnt : cnt = 0 → pending = [])
    (hroom : cnt + 1 < m) (xs : List ι) :
    (batches m limit cnt pending xs).flatten = pending ++ xs := by
  induction xs generalizing cnt pending with
  | nil =>
    rw [batches]
    split
    · simp
    · rename_i hzero
      rw [hcnt (Nat.eq_zero_of_not_pos hzero)]
      rfl
  | cons x xs ih =>
    rw [batches, Nat.mod_eq_of_lt hroom]
    split
    · rw [List.flatten_cons, ih (fun _ => rfl) (by omega)]
      simp
    · rw [ih (fun hzero => absurd hzero (Nat.succ_ne_zero cnt)) (by omega)]
      simp

/-- Too long or not, the batches have all items, unless the counter goes around at the only
    one. -/
theorem flatten_batches (hpos : 0 < limit) (hlimit : limit < m) (hcnt : cnt < m)
    (hkept : ¬ (cnt + 1 = m ∧ xs.length = 1)) :
    (batches m limit cnt [] xs).flatten = xs := by
  by_cases hlast : cnt + 1 = m
  · rcases xs with _ | ⟨x, _ | ⟨y, xs⟩⟩
    · rw [batches]
      split <;> rfl
    · exact absurd ⟨hlast, rfl⟩ hkept
    · -- the second item finds the counter at 0 and one item pending
      rw [batches_cons_of_wraps hlast hpos, batches, Nat.mod_eq_of_lt (by omega)]
      split
      · rw [List.flatten_cons, flatten_batches_of_pos hlimit (fun _ => rfl) (by omega)]
        rfl
      · exact flatten_batches_of_pos hlimit (by simp) (by omega) xs
  · exact flatten_batches_of_pos hlimit (fun _ => rfl) (by omega) xs

end CountedBatches
