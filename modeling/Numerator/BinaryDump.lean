import Numerator.Restore

/-!
# The binary format

A binary dump is read back record by record, but the loop only notices the end
of the file in a round of its own: nothing is delivered there, and the old
content of key, size and buffer is taken for one more record. After a record
that is a repetition. Without any record it is an entry out of nothing.
-/

namespace Numerator

namespace DiskStorage

open Std FiniteMap InputStream

/-! ### One round -/

/-- The key and the value that a round without input collects. -/
def BinaryLoop.leftover (env : RestoreEnv) (l : BinaryLoop) : KVPair :=
  ⟨l.key, (reserve (env.memory l.round) l.valueSize.toNat l.buffer).take l.valueSize.toNat⟩

variable {env : RestoreEnv} {l : BinaryLoop}

theorem reserve_of_le {memory : Nat → UInt8} {n : Nat} {buffer : Bytes} (h : n ≤ buffer.length) :
    reserve memory n buffer = buffer :=
  if_neg (by omega)

/-- A round at a record collects it, and leaves it in the locals. -/
theorem binaryBody_record {id : NumID} {value rest : Bytes} (hvalue : value.length < 2 ^ 32)
    (hwrites : env.writes = fun _ => .ok)
    (hstream : l.stream = ofBytes (dumpEntry true id value ++ rest)) :
    ∃ l', binaryBody env l = .inl l' ∧ l'.stream = ofBytes rest ∧
      l'.leftover env = ⟨id, value⟩ ∧ l'.batch.view = l.batch.view.insert id value := by
  have hsize : (UInt32.ofNat value.length).toNat = value.length := UInt32.toNat_ofNat_of_lt' hvalue
  have hkey : l.stream.read 8 =
      (id.bytes, ofBytes (LittleEndian.encode 4 value.length ++ (value ++ rest))) := by
    rw [hstream, dumpEntry_fields id hvalue, List.append_assoc, List.append_assoc]
    exact read_append (NumID.length_bytes id)
  have hread : InputStream.read 4
      (ofBytes (LittleEndian.encode 4 value.length ++ (value ++ rest))) =
        (LittleEndian.encode 4 value.length, ofBytes (value ++ rest)) :=
    read_append (LittleEndian.length_encode _ _)
  have hvalueRead : InputStream.read value.length (ofBytes (value ++ rest)) =
      (value, ofBytes rest) := read_append rfl
  have hid : NumID.ofBytes (overwrite l.key.bytes id.bytes) = id := by
    rw [overwrite_of_length_le (by simp), NumID.ofBytes_bytes]
  have hvalueSize : UInt32.ofNat (LittleEndian.decode (overwrite
      (LittleEndian.encode 4 l.valueSize.toNat) (LittleEndian.encode 4 value.length))) =
        UInt32.ofNat value.length := by
    rw [overwrite_of_length_le (by simp), LittleEndian.decode_encode_of_lt hvalue]
  obtain ⟨b, hpush⟩ := l.batch.push_ok ⟨id, value⟩
  set buffer := overwrite (reserve (env.memory l.round) value.length l.buffer) value with hbuffer
  have htake : buffer.take value.length = value := by simp [hbuffer, overwrite]
  have hlength : value.length ≤ buffer.length := by simp [hbuffer, overwrite]
  refine ⟨⟨ofBytes rest, id, UInt32.ofNat value.length, buffer, l.round + 1, b⟩, ?_, rfl, ?_,
    Batch.push_eq_ok hpush⟩
  · have heof : l.stream.eofbit = false := by
      rw [hstream]
      rfl
    simp only [binaryBody, heof, Bool.false_eq_true, if_false, hkey, hread, hid, hvalueSize, hsize,
      hvalueRead, ← hbuffer, htake, hwrites, hpush]
  · simp only [BinaryLoop.leftover, hsize, reserve_of_le hlength, htake]

/-- The round at the end of the file collects what is left in the locals. -/
theorem binaryBody_end (hwrites : env.writes = fun _ => .ok) (hstream : l.stream = ofBytes []) :
    ∃ l', binaryBody env l = .inl l' ∧ l'.stream.eofbit = true ∧
      l'.batch.view = l.batch.view.insert (l.leftover env).key (l.leftover env).value := by
  obtain ⟨b, hpush⟩ := l.batch.push_ok (l.leftover env)
  have hsize : UInt32.ofNat (LittleEndian.decode (LittleEndian.encode 4 l.valueSize.toNat)) =
      l.valueSize := by
    rw [LittleEndian.decode_encode_of_lt l.valueSize.toNat_lt, UInt32.ofNat_toNat]
  have hfirst : l.stream.read 8 = ([], ⟨[], .eof, true, true, false⟩) := by
    rw [hstream]
    rfl
  have hagain : ∀ n, InputStream.read n ⟨[], .eof, true, true, false⟩ =
      ([], ⟨[], .eof, true, true, false⟩) := fun n => read_of_not_good rfl
  refine ⟨⟨⟨[], .eof, true, true, false⟩, l.key, l.valueSize,
    reserve (env.memory l.round) l.valueSize.toNat l.buffer, l.round + 1, b⟩, ?_, rfl,
    Batch.push_eq_ok hpush⟩
  have heof : l.stream.eofbit = false := by
    rw [hstream]
    rfl
  rw [BinaryLoop.leftover] at hpush
  simp only [binaryBody, heof, Bool.false_eq_true, if_false, hfirst, hagain, overwrite_nil,
    NumID.ofBytes_bytes, hsize, hwrites, hpush]

theorem binaryBody_done (hwrites : env.writes = fun _ => .ok) (heof : l.stream.eofbit = true) :
    binaryBody env l = .inr (l.batch.view, .ok ()) := by
  simp only [binaryBody, heof, if_true, hwrites, Batch.finish_ok]

/-! ### Whole files -/

/-- From any round on, a file of complete records is put into the database, and after it the
    leftover of the last round. -/
theorem binary_returns (hwrites : env.writes = fun _ => .ok) (entries : List (NumID × Bytes))
    (hvalues : ∀ p ∈ entries, p.2.length < 2 ^ 32) (l : BinaryLoop)
    (hstream : l.stream = ofBytes (records true entries)) :
    WhileLoop.Returns (binaryBody env) l
      (putEntries l.batch.view (entries ++
        [((entries.getLast?.getD ((l.leftover env).key, (l.leftover env).value)))]), .ok ()) := by
  induction entries generalizing l with
  | nil =>
    obtain ⟨l', hbody, heof, hview⟩ := binaryBody_end hwrites hstream
    have hdone := WhileLoop.returns_of_done (binaryBody_done hwrites heof)
    rw [hview] at hdone
    exact hdone.step hbody
  | cons p entries ih =>
    rw [List.forall_mem_cons] at hvalues
    obtain ⟨l', hbody, hstream', hleftover, hview⟩ :=
      binaryBody_record hvalues.1 hwrites hstream
    have hrest := ih hvalues.2 l' hstream'
    rw [hview, hleftover] at hrest
    rw [List.getLast?_cons]
    exact hrest.step hbody

/-- The last record twice is the last record. -/
theorem putEntries_repeat (db : Store) (entries : List (NumID × Bytes)) (p : NumID × Bytes) :
    putEntries db (entries ++ [p] ++ [p]) = putEntries db (entries ++ [p]) := by
  unfold putEntries
  rw [putAll_concat (entries ++ [p])]
  apply ExtTreeMap.ext_getElem?
  intro k
  rw [ExtTreeMap.getElem?_insert]
  split
  · rename_i hk
    rw [← Std.LawfulEqCmp.eq_of_compare hk, putAll_concat, ExtTreeMap.getElem?_insert_self]
  · rfl

theorem restores_records (env : RestoreEnv) (hwrites : env.writes = fun _ => .ok) (db : Store)
    (entries : List (NumID × Bytes)) (hvalues : ∀ p ∈ entries, p.2.length < 2 ^ 32) :
    Restores env (some db) (.ofBytes (dumpHeader true ++ records true entries)) true
      (some (putEntries db (entries ++ [entries.getLast?.getD (env.key, [])])), .ok ()) :=
  restores_binary_iff.mpr ⟨_, binary_returns hwrites entries hvalues _ rfl, rfl⟩

/-- A dump with at least one record is restored as the puts of its records. -/
theorem restores_records_of_ne_nil (env : RestoreEnv) (hwrites : env.writes = fun _ => .ok)
    (db : Store) {entries : List (NumID × Bytes)}
    (hvalues : ∀ p ∈ entries, p.2.length < 2 ^ 32) (hne : entries ≠ []) :
    Restores env (some db) (.ofBytes (dumpHeader true ++ records true entries)) true
      (some (putEntries db entries), .ok ()) := by
  have h := restores_records env hwrites db entries hvalues
  obtain ⟨front, p, rfl⟩ := (List.eq_nil_or_concat entries).resolve_left hne
  rw [List.concat_eq_append] at h ⊢
  rwa [List.getLast?_concat, Option.getD_some, putEntries_repeat] at h

/-! ### Dumps of a store -/

/-- What a binary dump of a store holds. -/
def dumped (db : Store) : Store := db.map fun _ value => dumpedValue value

theorem dumpedValue_eq_self_iff (value : Bytes) :
    dumpedValue value = value ↔ value.length < 2 ^ 32 := by
  constructor
  · intro h
    rw [← h]
    exact length_dumpedValue_lt value
  · intro h
    rw [dumpedValue, UInt32.toNat_ofNat_of_lt' h, List.take_length]

theorem dumped_eq_self_iff (db : Store) :
    dumped db = db ↔ ∀ (id : NumID) (v : Bytes), db[id]? = some v → v.length < 2 ^ 32 := by
  constructor
  · intro h id v hv
    have hsame : (dumped db)[id]? = some v := by rw [h, hv]
    rw [dumped, ExtTreeMap.getElem?_map, hv, Option.map_some, Option.some.injEq] at hsame
    exact (dumpedValue_eq_self_iff v).mp hsame
  · intro h
    apply ExtTreeMap.ext_getElem?
    intro id
    rw [dumped, ExtTreeMap.getElem?_map]
    rcases hv : db[id]? with _ | v
    · rfl
    · rw [Option.map_some, (dumpedValue_eq_self_iff v).mpr (h id v hv)]

/-- Whatever the length of its values, a dump is restored as what it holds. -/
theorem restores_dumped (env : RestoreEnv) (hwrites : env.writes = fun _ => .ok) {db : Store}
    (hdb : db ≠ ∅) :
    Restores env (some ∅) (.ofBytes (dump (newIterator db) [] true).1) true
      (some (dumped db), .ok ()) := by
  have hlist : (dumped db).toList = db.toList.map fun p => (p.1, dumpedValue p.2) :=
    ExtTreeMap.toList_map
  have hne : (dumped db).toList ≠ [] := by
    rw [hlist]
    exact fun hnil => hdb (ExtTreeMap.toList_eq_nil_iff.mp (List.map_eq_nil_iff.mp hnil))
  have hvalues : ∀ p ∈ (dumped db).toList, p.2.length < 2 ^ 32 := by
    rw [hlist, List.forall_mem_map]
    exact fun p _ => length_dumpedValue_lt p.2
  have h := restores_records_of_ne_nil env hwrites ∅ hvalues hne
  rw [putEntries, putAll_toList, hlist, records_dumpedValue] at h
  rwa [dump_newIterator]

/-- The binary dump of a store, restored into an empty database, gives the store again exactly
    when the store has an entry. -/
theorem restores_binary_dump_iff (db : Store)
    (hvalues : ∀ (id : NumID) (v : Bytes), db[id]? = some v → v.length < 2 ^ 32)
    (key : NumID) (memory : Nat → Nat → UInt8) :
    Restores { key := key, memory := memory } (some ∅)
        (.ofBytes (dump (newIterator db) [] true).1) true (some db, .ok ()) ↔ db ≠ ∅ := by
  constructor
  · rintro h rfl
    rw [dump_newIterator] at h
    have hempty := restores_records { key := key, memory := memory } rfl ∅ [] (by simp)
    have hsame := h.unique hempty
    simp only [Prod.mk.injEq, Option.some.injEq, and_true] at hsame
    have hkey : (∅ : Store)[key]? = some [] := by
      rw [hsame]
      exact ExtTreeMap.getElem?_insert_self
    simp at hkey
  · intro hne
    have h := restores_dumped { key := key, memory := memory } rfl hne
    rwa [(dumped_eq_self_iff db).mpr hvalues] at h

/-- A key with a sign and an empty value. -/
theorem restores_binary_dump_iff_negative :
    Restores { key := 7, memory := fun _ _ => 0 } (some ∅)
      (.ofBytes (dump (newIterator (((∅ : Store).insert (-1) [9, 10]).insert 1 [])) [] true).1)
      true (some (((∅ : Store).insert (-1) [9, 10]).insert 1 []), .ok ()) := by
  apply (restores_binary_dump_iff _ _ 7 _).mpr
  · simp
  · exact forall_mem_toList_iff.mp (by decide)

/-- From the dump of an empty store comes the initial content of `key`. -/
theorem not_restores_binary_dump_empty :
    Restores { key := 7, memory := fun _ _ => 0 } (some ∅)
        (.ofBytes (dump (newIterator ∅) [] true).1) true
        (some ((∅ : Store).insert 7 []), .ok ()) ∧
      ¬ Restores { key := 7, memory := fun _ _ => 0 } (some ∅)
        (.ofBytes (dump (newIterator ∅) [] true).1) true (some ∅, .ok ()) := by
  have hentry : Restores { key := 7, memory := fun _ _ => 0 } (some ∅)
      (.ofBytes (dump (newIterator ∅) [] true).1) true
      (some ((∅ : Store).insert 7 []), .ok ()) :=
    ⟨2, by decide⟩
  refine ⟨hentry, ?_⟩
  intro hempty
  exact absurd (hempty.unique hentry) (by decide)

end DiskStorage

end Numerator
