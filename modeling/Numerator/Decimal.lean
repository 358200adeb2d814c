import Numerator.ByteString

/-!
# Decimal numbers

Decimal notation of integers as bytes: how they are printed, and how a string
with an optional sign is read back.
-/

namespace Decimal

def digit (d : Nat) : UInt8 := UInt8.ofNat (48 + d)

def printNat (n : Nat) : Bytes :=
  if n = 0 then [digit 0] else ((Nat.digits 10 n).map digit).reverse

def printInt (i : Int) : Bytes :=
  if i < 0 then 45 :: printNat i.natAbs else printNat i.natAbs

def isDigit (b : UInt8) : Bool := 48 ≤ b && b ≤ 57

/-- The value of a nonempty string of digits. -/
def parseNat (bs : Bytes) : Option Nat :=
  if bs ≠ [] ∧ bs.all isDigit then
    some (bs.foldl (fun n b => 10 * n + (b.toNat - 48)) 0)
  else none

/-- Digits with an optional sign. -/
def parseInt : Bytes → Option Int
  | 45 :: bs => (parseNat bs).map fun n : Nat => -(n : Int)
  | 43 :: bs => (parseNat bs).map fun n : Nat => (n : Int)
  | bs => (parseNat bs).map fun n : Nat => (n : Int)

/-! ### Which strings are read -/

/-- The number that the digits stand for. -/
def value (digits : Bytes) : Nat :=
  Nat.ofDigits 10 (digits.reverse.map fun b => b.toNat - 48)

theorem foldl_eq_value (bs : Bytes) :
    bs.foldl (fun n b => 10 * n + (b.toNat - 48)) 0 = value bs := by
  unfold value
  induction bs using List.reverseRecOn with
  | nil => rfl
  | append_singleton bs b ih =>
    rw [List.foldl_append, ih, List.reverse_append, List.reverse_singleton, List.singleton_append,
      List.map_cons, Nat.ofDigits_cons, List.foldl_cons, List.foldl_nil]
    simp
    omega

theorem parseNat_eq_some_iff {bs : Bytes} {n : Nat} :
    parseNat bs = some n ↔ bs ≠ [] ∧ (∀ b ∈ bs, isDigit b = true) ∧ n = value bs := by
  unfold parseNat
  rw [foldl_eq_value, ← List.all_eq_true]
  split
  · rename_i h
    rw [Option.some.injEq]
    constructor
    · intro heq
      exact ⟨h.1, h.2, heq.symm⟩
    · intro heq
      exact heq.2.2.symm
  · rename_i h
    constructor
    · intro heq
      cases heq
    · intro heq
      exact absurd ⟨heq.1, heq.2.1⟩ h

/-- The number is written with a minus sign, a plus sign or none, and at least one digit. -/
def Denotes (bs : Bytes) (i : Int) : Prop :=
  ∃ sign digits : Bytes, bs = sign ++ digits ∧ digits ≠ [] ∧ (∀ b ∈ digits, isDigit b = true) ∧
    ((sign = [45] ∧ i = -(value digits : Int)) ∨ ((sign = [43] ∨ sign = []) ∧ i = value digits))

/-- The strings that are read, and the numbers that they are read as. -/
theorem parseInt_eq_some_iff {bs : Bytes} {i : Int} : parseInt bs = some i ↔ Denotes bs i := by
  constructor
  · intro h
    unfold parseInt at h
    split at h
    all_goals
      obtain ⟨n, hn, rfl⟩ := Option.map_eq_some_iff.mp h
      obtain ⟨hne, hdigits, rfl⟩ := parseNat_eq_some_iff.mp hn
    · exact ⟨[45], _, rfl, hne, hdigits, Or.inl ⟨rfl, rfl⟩⟩
    · exact ⟨[43], _, rfl, hne, hdigits, Or.inr ⟨Or.inl rfl, rfl⟩⟩
    · exact ⟨[], _, rfl, hne, hdigits, Or.inr ⟨Or.inr rfl, rfl⟩⟩
  · rintro ⟨sign, digits, rfl, hne, hdigits, ⟨rfl, rfl⟩ | ⟨rfl | rfl, rfl⟩⟩
    all_goals
      have hn := parseNat_eq_some_iff.mpr ⟨hne, hdigits, rfl⟩
    · rw [List.singleton_append, parseInt, hn]
      rfl
    · rw [List.singleton_append, parseInt, hn]
      rfl
    · -- a digit is no sign
      have hhead : ∀ b bs, digits = b :: bs → b ≠ 45 ∧ b ≠ 43 := by
        rintro b bs rfl
        have hb := hdigits b List.mem_cons_self
        constructor <;> rintro rfl <;> exact absurd hb (by decide)
      rw [List.nil_append, parseInt, hn]
      · rfl
      · exact fun bs heq => (hhead 45 bs heq).1 rfl
      · exact fun bs heq => (hhead 43 bs heq).2 rfl

/-! ### What is printed is read back -/

theorem toNat_digit {d : Nat} (h : d < 10) : (digit d).toNat = 48 + d := by
  rw [digit, UInt8.toNat_ofNat']
  omega

theorem isDigit_digit {d : Nat} (h : d < 10) : isDigit (digit d) = true := by
  have hd := toNat_digit h
  simp only [isDigit, Bool.and_eq_true, decide_eq_true_eq, UInt8.le_iff_toNat_le, hd]
  simp
  omega

theorem isDigit_of_mem_printNat {n : Nat} {b : UInt8} (h : b ∈ printNat n) :
    isDigit b = true := by
  unfold printNat at h
  split at h
  · rw [List.mem_singleton.mp h]
    rfl
  · obtain ⟨d, hd, rfl⟩ := List.mem_map.mp (List.mem_reverse.mp h)
    exact isDigit_digit (Nat.digits_lt_base (by norm_num) hd)

theorem printNat_ne_nil (n : Nat) : printNat n ≠ [] := by
  unfold printNat
  split
  · simp
  · rename_i hn
    simpa [Nat.digits_eq_nil_iff_eq_zero] using hn

/-- The digits of a number give its value again. -/
theorem value_digits (ds : List Nat) (h : ∀ d ∈ ds, d < 10) :
    value (ds.map digit).reverse = Nat.ofDigits 10 ds := by
  have hdigits : (ds.map digit).map (fun b => b.toNat - 48) = ds := by
    rw [List.map_map]
    refine (List.map_congr_left fun d hd => ?_).trans (List.map_id _)
    rw [Function.comp_apply, toNat_digit (h d hd), Nat.add_sub_cancel_left, id]
  rw [value, List.reverse_reverse, hdigits]

theorem parseNat_printNat (n : Nat) : parseNat (printNat n) = some n := by
  refine parseNat_eq_some_iff.mpr ⟨printNat_ne_nil n, fun b hb => isDigit_of_mem_printNat hb, ?_⟩
  unfold printNat
  split
  · rename_i hn
    rw [hn]
    rfl
  · rw [value_digits _ fun d hd => Nat.digits_lt_base (by norm_num) hd, Nat.ofDigits_digits]

theorem parseInt_printInt (i : Int) : parseInt (printInt i) = some i := by
  unfold printInt
  split
  · rw [parseInt, parseNat_printNat, Option.map_some]
    congr
    omega
  · -- a digit is no sign
    have hhead : ∀ bs, printNat i.natAbs ≠ 45 :: bs ∧ printNat i.natAbs ≠ 43 :: bs := by
      intro bs
      constructor <;> intro heq
      · exact absurd (isDigit_of_mem_printNat (heq ▸ List.mem_cons_self)) (by decide)
      · exact absurd (isDigit_of_mem_printNat (heq ▸ List.mem_cons_self)) (by decide)
    have hplain : parseInt (printNat i.natAbs) =
        (parseNat (printNat i.natAbs)).map fun n : Nat => (n : Int) := by
      rw [parseInt]
      · exact fun bs => (hhead bs).1
      · exact fun bs => (hhead bs).2
    rw [hplain, parseNat_printNat, Option.map_some]
    congr
    omega

/-- A printed number has no byte below the digits but the minus sign. -/
theorem not_mem_printInt {i : Int} {b : UInt8} (h : b < 45) : b ∉ printInt i := by
  intro hb
  have hdigit : isDigit b = true → False := by
    intro hd
    simp only [isDigit, Bool.and_eq_true, decide_eq_true_eq, UInt8.le_iff_toNat_le] at hd
    have hlt := UInt8.lt_iff_toNat_lt.mp h
    simp at hd hlt
    omega
  unfold printInt at hb
  split at hb
  · rcases List.mem_cons.mp hb with rfl | hb
    · exact absurd h (by decide)
    · exact hdigit (isDigit_of_mem_printNat hb)
  · exact hdigit (isDigit_of_mem_printNat hb)

end Decimal
