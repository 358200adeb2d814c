import Mathlib

/-!
# Byte strings

Byte strings as lists of bytes, the C string that a byte string is read as when
only its address is passed on, and unsigned integers in little-endian byte
order. The comparison of byte strings is the lexicographic one of `List`.
-/

abbrev Bytes := List UInt8

/-! ### C strings -/

/-- A byte string without a NUL byte: what a `const char *` can denote. -/
def CString : Type := { s : Bytes // (0 : UInt8) ∉ s }
deriving DecidableEq

/-- The C string at `s.c_str()`: the bytes of `s` before its first NUL. -/
def cstr (s : Bytes) : CString :=
  ⟨s.takeWhile (· ≠ 0), fun h => by simpa using List.mem_takeWhile_imp h⟩

namespace CString

/-- Byte order on C strings. -/
def order : CString → CString → Ordering := compareOn fun s => s.val

instance : Std.TransCmp order :=
  inferInstanceAs (Std.TransCmp (compareOn fun s : CString => s.val))

instance : Std.LawfulEqCmp order where
  eq_of_compare {_ _} h := Subtype.ext (Std.LawfulEqCmp.eq_of_compare h)

end CString

theorem forall_ne_of_not_mem {sep : UInt8} {s : Bytes} (h : sep ∉ s) :
    ∀ b ∈ s, decide (b ≠ sep) = true := by
  intro b hb
  simpa using fun heq : b = sep => h (heq ▸ hb)

theorem cstr_val_eq_self {s : Bytes} (h : (0 : UInt8) ∉ s) : (cstr s).val = s := by
  rw [cstr, List.takeWhile_eq_self_iff]
  exact forall_ne_of_not_mem h

/-- NUL-free strings are equal as soon as their C strings are. -/
theorem eq_of_cstr_eq {s t : Bytes} (hs : (0 : UInt8) ∉ s) (ht : (0 : UInt8) ∉ t)
    (h : cstr s = cstr t) : s = t := by
  rw [← cstr_val_eq_self hs, ← cstr_val_eq_self ht, h]

/-! ### Separators -/

/-- The pieces between separators are made of the other bytes. -/
theorem mem_of_mem_splitOn {sep b : UInt8} {bs piece : Bytes} (hpiece : piece ∈ bs.splitOn sep)
    (hb : b ∈ piece) : b ∈ bs ∧ b ≠ sep := by
  induction bs generalizing piece with
  | nil =>
    rw [List.splitOn_nil, List.mem_singleton] at hpiece
    rw [hpiece] at hb
    cases hb
  | cons x bs ih =>
    rw [List.splitOn_cons_eq_if_modifyHead] at hpiece
    split at hpiece
    · rcases List.mem_cons.mp hpiece with rfl | hpiece
      · cases hb
      · obtain ⟨hmem, hne⟩ := ih hpiece hb
        exact ⟨List.mem_cons_of_mem x hmem, hne⟩
    · rename_i hx
      obtain ⟨head, tail, hsplit⟩ := List.exists_cons_of_ne_nil (List.splitOn_ne_nil sep bs)
      rw [hsplit, List.modifyHead_cons] at hpiece
      rw [hsplit] at ih
      rcases List.mem_cons.mp hpiece with rfl | hpiece
      · rcases List.mem_cons.mp hb with rfl | hb
        · exact ⟨List.mem_cons_self, by simpa using hx⟩
        · obtain ⟨hmem, hne⟩ := ih List.mem_cons_self hb
          exact ⟨List.mem_cons_of_mem x hmem, hne⟩
      · obtain ⟨hmem, hne⟩ := ih (List.mem_cons_of_mem head hpiece) hb
        exact ⟨List.mem_cons_of_mem x hmem, hne⟩

/-! ### Little-endian integers -/

namespace LittleEndian

/-- The `w` low bytes of `n`, least significant byte first. -/
def encode : Nat → Nat → Bytes
  | 0, _ => []
  | w + 1, n => UInt8.ofNat n :: encode w (n / 256)

/-- The number that a byte string denotes, least significant byte first. -/
def decode : Bytes → Nat
  | [] => 0
  | b :: bs => b.toNat + 256 * decode bs

@[simp] theorem length_encode (w n : Nat) : (encode w n).length = w := by
  induction w generalizing n with
  | zero => rfl
  | succ w ih => rw [encode, List.length_cons, ih]

theorem decode_encode (w n : Nat) : decode (encode w n) = n % 256 ^ w := by
  induction w generalizing n with
  | zero => rw [encode, decode, pow_zero, Nat.mod_one]
  | succ w ih =>
    rw [encode, decode, ih, pow_succ', Nat.mod_mul, UInt8.toNat_ofNat']

theorem decode_cons_mod (b : UInt8) (bs : Bytes) : decode (b :: bs) % 256 = b.toNat := by
  have hlt := b.toNat_lt
  rw [decode]
  omega

theorem decode_encode_of_lt {w n : Nat} (h : n < 256 ^ w) : decode (encode w n) = n := by
  rw [decode_encode, Nat.mod_eq_of_lt h]

end LittleEndian
