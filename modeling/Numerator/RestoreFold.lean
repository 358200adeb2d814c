import Numerator.BinaryDump
import Numerator.TextDump

/-!
# A restore is a fold of puts

Whatever the batch size makes of it, a file of records is put into the database
one record after the other, in both formats.
-/

namespace Numerator

namespace DiskStorage

open Std FiniteMap

/-- What the format can carry as the value of a record. -/
def Carries (binaryDump : Bool) (value : Bytes) : Prop :=
  if binaryDump then value.length < 2 ^ 32 else 9 ∉ value ∧ 10 ∉ value

instance (binaryDump : Bool) : DecidablePred (Carries binaryDump) := by
  unfold Carries
  infer_instance

/-- The records of a file are put one by one; the last record of a key wins, and the entries
    of other keys stay. -/
theorem restore_eq_fold (db : Store) (entries : List (NumID × Bytes)) (hne : entries ≠ [])
    (binaryDump : Bool) (hvalues : ∀ p ∈ entries, Carries binaryDump p.2) (key : NumID)
    (memory : Nat → Nat → UInt8) :
    Restores { key := key, memory := memory } (some db)
        (.ofBytes (dumpHeader binaryDump ++ records binaryDump entries)) binaryDump
        (some (putEntries db entries), .ok ()) ∧
      (∀ (front back : List (NumID × Bytes)) (id : NumID) (value : Bytes),
        entries = front ++ (id, value) :: back → (∀ p ∈ back, p.1 ≠ id) →
          (putEntries db entries)[id]? = some value) ∧
      ∀ id, (∀ p ∈ entries, p.1 ≠ id) → (putEntries db entries)[id]? = db[id]? := by
  refine ⟨?_, ?_, fun id hid => getElem?_putAll_of_forall_ne hid⟩
  · cases binaryDump with
    | true => exact restores_records_of_ne_nil _ rfl db hvalues hne
    | false => exact restores_text_iff.mpr ⟨_, text_returns entries hvalues _ rfl, rfl⟩
  · rintro front back id value rfl hback
    exact getElem?_putAll_of_last (x := (id, value)) hback

/-- A key twice in the file and once in the database, with an empty value at the end. -/
theorem restore_eq_fold_repeated :
    Restores { key := 5, memory := fun _ _ => 1 } (some ((∅ : Store).insert (-1) [120]))
        (.ofBytes (dumpHeader true ++ records true [(-1, [97]), (7, [9, 10]), (-1, [])])) true
        (some (((∅ : Store).insert 7 [9, 10]).insert (-1) []), .ok ()) := by
  have h := (restore_eq_fold ((∅ : Store).insert (-1) [120]) [(-1, [97]), (7, [9, 10]), (-1, [])]
    (by decide) true (by decide) 5 (fun _ _ => 1)).1
  have hfold : putEntries ((∅ : Store).insert (-1) [120]) [(-1, [97]), (7, [9, 10]), (-1, [])] =
      ((∅ : Store).insert 7 [9, 10]).insert (-1) [] := by
    decide
  rwa [hfold] at h

end DiskStorage

end Numerator
