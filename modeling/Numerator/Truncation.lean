import Numerator.BinaryDump
import Numerator.BinaryTermination

/-!
# Truncated binary dumps

A file that is cut off inside a record is read to its end like any other. In the
round that meets the end the reads deliver what is left of the record, the rest
of key, size and value is old content, and the pair that this gives is written
with the records before it. The call returns normally.
-/

namespace Numerator

namespace DiskStorage

open Std FiniteMap InputStream

variable {env : RestoreEnv} {l : BinaryLoop}

/-- A stream with both fields of a record gives the size that stands there. -/
theorem nextSize_of_fields {id : NumID} {n : Nat} {more : Bytes} (hn : n < 2 ^ 32)
    (hstream : l.stream = ofBytes (id.bytes ++ LittleEndian.encode 4 n ++ more)) :
    l.nextSize = UInt32.ofNat n := by
  have hkey : l.stream.read 8 = (id.bytes, ofBytes (LittleEndian.encode 4 n ++ more)) := by
    rw [hstream, List.append_assoc]
    exact read_append (NumID.length_bytes id)
  have hsize : InputStream.read 4 (ofBytes (LittleEndian.encode 4 n ++ more)) =
      (LittleEndian.encode 4 n, ofBytes more) :=
    read_append (LittleEndian.length_encode _ _)
  rw [BinaryLoop.nextSize, hkey, hsize, overwrite_of_length_le (by simp),
    LittleEndian.decode_encode_of_lt hn]

/-- An incomplete record is too short for the three reads of its round. -/
theorem eof_of_truncated {id : NumID} {value part rest : Bytes} (hvalue : value.length < 2 ^ 32)
    (hentry : dumpEntry true id value = part ++ rest) (hrest : rest ≠ [])
    (hstream : l.stream = ofBytes part) :
    (((l.stream.read 8).2.read 4).2.read l.nextSize.toNat).2.eofbit = true := by
  by_contra hopen
  rw [Bool.not_eq_true] at hopen
  have hsound : l.stream.Sound := by
    rw [hstream]
    exact ⟨rfl, fun _ => rfl⟩
  have hserved := (sound_reads hsound l.nextSize.toNat).2 hopen
  have hpart : l.stream.rest.length = part.length := by
    rw [hstream]
    rfl
  rw [dumpEntry_fields id hvalue] at hentry
  -- the fields have been served, so they stand in the part, and the size is the real one
  have hfields : (id.bytes ++ LittleEndian.encode 4 value.length).length ≤ part.length := by
    simp only [List.length_append, NumID.length_bytes, LittleEndian.length_encode]
    omega
  obtain ⟨more, hmore⟩ := List.prefix_of_prefix_length_le (List.prefix_append _ _)
    (hentry ▸ List.prefix_append part rest) hfields
  have hnextSize : l.nextSize = UInt32.ofNat value.length :=
    nextSize_of_fields hvalue (hmore.symm ▸ hstream)
  have htotal := congrArg List.length hentry
  have hrestLength := List.length_pos_iff.mpr hrest
  rw [hnextSize, UInt32.toNat_ofNat_of_lt' hvalue] at hserved
  simp only [List.length_append, NumID.length_bytes, LittleEndian.length_encode] at htotal
  omega

/-- The round at an incomplete record collects some pair and meets the end of the file. -/
theorem binaryBody_truncated {id : NumID} {value part rest : Bytes} (hvalue : value.length < 2 ^ 32)
    (hwrites : env.writes = fun _ => .ok) (hentry : dumpEntry true id value = part ++ rest)
    (hrest : rest ≠ []) (hstream : l.stream = ofBytes part) :
    ∃ (l' : BinaryLoop) (p : KVPair), binaryBody env l = .inl l' ∧ l'.stream.eofbit = true ∧
      l'.batch.view = l.batch.view.insert p.key p.value := by
  have heof : l.stream.eofbit = false := by
    rw [hstream]
    rfl
  obtain ⟨p, next, hnext, hbody⟩ := binaryBody_collects env heof
  obtain ⟨b, hpush⟩ := l.batch.push_ok p
  rw [hwrites, hpush] at hbody
  obtain ⟨hbatch, hstream'⟩ := hnext b
  refine ⟨next b, p, hbody, ?_, by rw [hbatch, Batch.push_eq_ok hpush]⟩
  rw [hstream']
  exact eof_of_truncated hvalue hentry hrest hstream

/-- After the complete records one more pair is put into the database. -/
theorem truncated_returns {id : NumID} {value part rest : Bytes} (hvalue : value.length < 2 ^ 32)
    (hwrites : env.writes = fun _ => .ok) (hentry : dumpEntry true id value = part ++ rest)
    (hrest : rest ≠ []) (front : List (NumID × Bytes)) (hfront : ∀ p ∈ front, p.2.length < 2 ^ 32)
    (l : BinaryLoop) (hstream : l.stream = ofBytes (records true front ++ part)) :
    ∃ p, WhileLoop.Returns (binaryBody env) l
      (putEntries l.batch.view (front ++ [p]), .ok ()) := by
  induction front generalizing l with
  | nil =>
    obtain ⟨l', p, hbody, heof, hview⟩ :=
      binaryBody_truncated hvalue hwrites hentry hrest hstream
    have hdone := WhileLoop.returns_of_done (binaryBody_done hwrites heof)
    rw [hview] at hdone
    exact ⟨(p.key, p.value), hdone.step hbody⟩
  | cons q front ih =>
    rw [List.forall_mem_cons] at hfront
    rw [records_cons, List.append_assoc] at hstream
    obtain ⟨l', hbody, hstream', -, hview⟩ := binaryBody_record hfront.1 hwrites hstream
    obtain ⟨p, hp⟩ := ih hfront.2 l' hstream'
    rw [hview] at hp
    exact ⟨p, hp.step hbody⟩

/-! ### What is expected -/

/-- The file is the binary dump of the store up to a point strictly inside a record. -/
def CutInside (src : Store) (file : Bytes) : Prop :=
  ∃ (front back : List (NumID × Bytes)) (id : NumID) (value part rest : Bytes),
    src.toList = front ++ (id, value) :: back ∧ dumpEntry true id value = part ++ rest ∧
      part ≠ [] ∧ rest ≠ [] ∧ file = dumpHeader true ++ records true front ++ part

theorem CutInside.isPrefix {src : Store} {file : Bytes} (h : CutInside src file) :
    file <+: (dump (newIterator src) [] true).1 := by
  obtain ⟨front, back, id, value, part, rest, hsrc, hentry, -, -, rfl⟩ := h
  refine ⟨rest ++ records true back, ?_⟩
  rw [dump_newIterator, hsrc, records, records, records, List.flatMap_append, List.flatMap_cons,
    hentry]
  simp only [List.append_assoc]

/-- The file begins with complete records, this one among them. -/
def CompleteRecord (file : Bytes) (p : NumID × Bytes) : Prop :=
  ∃ entries, p ∈ entries ∧ dumpHeader true ++ records true entries <+: file

/-- The call throws, and has put nothing into the database but complete records. -/
structure Rejects (env : RestoreEnv) (db : Store) (file : Bytes) : Prop where
  throws : ∃ store e, Restores env (some db) (.ofBytes file) true (some store, .error (.exc e))
  complete : ∀ store result, Restores env (some db) (.ofBytes file) true (some store, result) →
    ∀ (id : NumID) (v : Bytes), store[id]? = some v →
      db[id]? = some v ∨ CompleteRecord file (id, v)

/-- No truncated dump is rejected: the call returns normally. -/
theorem truncated_never_rejected (src : Store) (file : Bytes) (h : CutInside src file)
    (db : Store) (key : NumID) (memory : Nat → Nat → UInt8) :
    (∃ store, Restores { key := key, memory := memory } (some db) (.ofBytes file) true
        (some store, .ok ())) ∧
      ¬ Rejects { key := key, memory := memory } db file := by
  obtain ⟨front, back, id, value, part, rest, -, hentry, -, hrest, rfl⟩ := h
  have hreturns : ∃ store, Restores { key := key, memory := memory } (some db)
      (.ofBytes (dumpHeader true ++ records true front ++ part)) true (some store, .ok ()) := by
    rw [← dumpEntry_dumpedValue] at hentry
    rw [List.append_assoc, ← records_dumpedValue]
    have hfront : ∀ p ∈ front.map (fun p => (p.1, dumpedValue p.2)), p.2.length < 2 ^ 32 := by
      rw [List.forall_mem_map]
      exact fun p _ => length_dumpedValue_lt p.2
    have hwrites : RestoreEnv.writes { key := key, memory := memory } = fun _ => .ok := rfl
    obtain ⟨p, hp⟩ := truncated_returns (length_dumpedValue_lt value) hwrites hentry hrest _
      hfront ⟨ofBytes _, key, 0, [], 0, { db := db }⟩ rfl
    exact ⟨_, restores_binary_iff.mpr ⟨_, hp, rfl⟩⟩
  refine ⟨hreturns, ?_⟩
  rintro ⟨⟨store', e, hthrows⟩, -⟩
  obtain ⟨store, hstore⟩ := hreturns
  cases hthrows.unique hstore

/-- The cut is in the middle of a value. -/
theorem truncated_never_rejected_value :
    ¬ Rejects { key := 0, memory := fun _ _ => 7 } (∅ : Store)
      (dumpHeader true ++ (NumID.bytes 1 ++ [3, 0, 0, 0, 97])) :=
  (truncated_never_rejected ((∅ : Store).insert 1 [97, 98, 99]) _
    ⟨[], [], 1, [97, 98, 99], NumID.bytes 1 ++ [3, 0, 0, 0, 97], [98, 99], by decide, by decide,
      by decide, by decide, rfl⟩ ∅ 0 fun _ _ => 7).2

/-- Of the second record only the first byte of its key is there. With the other bytes and the
    value of the first record it makes an entry that the dumped store does not have. -/
theorem not_rejects_cut_key :
    CutInside (((∅ : Store).insert 1 [97]).insert 2 [98])
        (dumpHeader true ++ records true [(1, [97])] ++ [2]) ∧
      Restores { key := 0, memory := fun _ _ => 0 } (some ∅)
        (.ofBytes (dumpHeader true ++ records true [(1, [97])] ++ [2])) true
        (some (((∅ : Store).insert 1 [97]).insert 2 [97]), .ok ()) ∧
      ¬ Rejects { key := 0, memory := fun _ _ => 0 } ∅
        (dumpHeader true ++ records true [(1, [97])] ++ [2]) := by
  have hrestores : Restores { key := 0, memory := fun _ _ => 0 } (some ∅)
      (.ofBytes (dumpHeader true ++ records true [(1, [97])] ++ [2])) true
      (some (((∅ : Store).insert 1 [97]).insert 2 [97]), .ok ()) :=
    ⟨3, by decide⟩
  refine ⟨⟨[(1, [97])], [], 2, [98], [2], [0, 0, 0, 0, 0, 0, 0, 1, 0, 0, 0, 98], by decide,
    by decide, by decide, by decide, rfl⟩, hrestores, ?_⟩
  rintro ⟨⟨store, e, hthrows⟩, -⟩
  cases hthrows.unique hrestores

end DiskStorage

end Numerator
