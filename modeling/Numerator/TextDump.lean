import Numerator.Restore

/-!
# The text format

Values are written as they are, but a line ends at the first newline and its
value at the next tab. So nothing that the text format reads contains a tab or
a newline, and a store is read back exactly when none of its strings does.
-/

namespace Numerator

namespace DiskStorage

open Std FiniteMap InputStream

variable {env : RestoreEnv} {writes : Nat → WriteReply} {l l' : TextLoop}

/-! ### One round -/

/-- Every key that is printed is converted back. -/
theorem lexicalCast_printInt (id : NumID) : lexicalCast (Decimal.printInt id.toInt) = some id := by
  rw [lexicalCast_eq_some_iff, ← Decimal.parseInt_eq_some_iff]
  exact Decimal.parseInt_printInt id.toInt

/-- A round at a record without tab and newline in its value puts it. -/
theorem textBody_record {id : NumID} {value rest : Bytes} (htab : 9 ∉ value) (hnewline : 10 ∉ value)
    (hstream : l.stream = ofBytes (dumpEntry false id value ++ rest)) :
    ∃ l', textBody (fun _ => .ok) l = .inl l' ∧ l'.stream = ofBytes rest ∧
      l'.batch.view = l.batch.view.insert id value := by
  obtain ⟨b, hpush⟩ := l.batch.push_ok ⟨id, value⟩
  have hbytes : dumpEntry false id value ++ rest =
      (Decimal.printInt id.toInt ++ 9 :: value) ++ 10 :: rest := by
    simp [dumpEntry]
  have hline : (10 : UInt8) ∉ Decimal.printInt id.toInt ++ 9 :: value := by
    rw [List.mem_append, List.mem_cons]
    rintro (hmem | hmem | hmem)
    · exact Decimal.not_mem_printInt (by decide) hmem
    · exact absurd hmem (by decide)
    · exact hnewline hmem
  have hgetline : l.stream.getline l.line =
      (Decimal.printInt id.toInt ++ 9 :: value, ofBytes rest) := by
    rw [hstream, hbytes, getline_append hline]
  have hitems : (Decimal.printInt id.toInt ++ 9 :: value).splitOn 9 =
      [Decimal.printInt id.toInt, value] := by
    rw [List.splitOn_append_cons_self_of_not_mem (Decimal.not_mem_printInt (by decide)),
      List.splitOn_eq_singleton htab]
  refine ⟨⟨ofBytes rest, Decimal.printInt id.toInt ++ 9 :: value, b⟩, ?_, rfl,
    Batch.push_eq_ok hpush⟩
  simp only [textBody, hgetline, hitems, lexicalCast_printInt, hpush]
  rfl

theorem textBody_end (hstream : l.stream = ofBytes []) :
    textBody (fun _ => .ok) l = .inr (l.batch.view, .ok ()) := by
  have hgetline : l.stream.getline l.line = ([], ⟨[], .eof, true, true, false⟩) := by
    rw [hstream]
    rfl
  simp only [textBody, hgetline, InputStream.fails, Bool.or_false, if_true, Batch.finish_ok]

theorem parseLine_eq_ok {line : Bytes} {p : KVPair} (h : parseLine line = .ok p) :
    p.value ∈ line.splitOn 9 := by
  unfold parseLine at h
  split at h
  · cases h
  · rename_i item₀ items hitems
    split at h
    · cases h
    · split at h
      · cases h
      · cases h
        rw [hitems]
        exact List.mem_cons_of_mem item₀ List.mem_cons_self

/-- A round that goes on has put the second item of its line. -/
theorem textBody_eq_inl (h : textBody writes l = .inl l') :
    l'.line = (l.stream.getline l.line).1 ∧
      ∃ key item, item ∈ l'.line.splitOn 9 ∧ l'.batch.view = l.batch.view.insert key item := by
  rw [textBody_eq] at h
  split at h
  rename_i line stream hgetline
  split at h
  · cases h
  · split at h
    · cases h
    · rename_i p hparse
      split at h
      · cases h
      · rename_i b hpush
        cases h
        exact ⟨by rw [hgetline], p.key, p.value, parseLine_eq_ok hparse, Batch.push_eq_ok hpush⟩

theorem textBody_eq_inr {db : Store} (h : textBody writes l = .inr (db, .ok ())) :
    db = l.batch.view := by
  rw [textBody_eq] at h
  split at h
  split at h
  · exact Batch.finish_eq_ok (Sum.inr.inj h)
  · split at h
    · cases h
    · split at h <;> cases h

/-! ### Whole files -/

/-- From any round on, a file of records without tab and newline is put into the database. -/
theorem text_returns (entries : List (NumID × Bytes))
    (hvalues : ∀ p ∈ entries, 9 ∉ p.2 ∧ 10 ∉ p.2) (l : TextLoop)
    (hstream : l.stream = ofBytes (records false entries)) :
    WhileLoop.Returns (textBody fun _ => .ok) l (putEntries l.batch.view entries, .ok ()) := by
  induction entries generalizing l with
  | nil => exact WhileLoop.returns_of_done (textBody_end hstream)
  | cons p entries ih =>
    rw [List.forall_mem_cons] at hvalues
    obtain ⟨l', hbody, hstream', hview⟩ := textBody_record hvalues.1.1 hvalues.1.2 hstream
    have hrest := ih hvalues.2 l' hstream'
    rw [hview] at hrest
    exact hrest.step hbody

/-- No stored string has a tab or a newline. -/
def Printable (db : Store) : Prop :=
  ∀ (id : NumID) (v : Bytes), db[id]? = some v → 9 ∉ v ∧ 10 ∉ v

theorem Printable.insert {db : Store} (h : Printable db) {key : NumID} {value : Bytes}
    (htab : 9 ∉ value) (hnewline : 10 ∉ value) : Printable (db.insert key value) := by
  intro id v hv
  by_cases hid : key = id
  · rw [hid, ExtTreeMap.getElem?_insert_self] at hv
    cases hv
    exact ⟨htab, hnewline⟩
  · rw [getElem?_insert_of_ne _ hid] at hv
    exact h id v hv

/-- What the loop keeps: no newline in the line, and a printable database. -/
structure TextLoop.Printable (l : TextLoop) : Prop where
  line : 10 ∉ l.line
  view : DiskStorage.Printable l.batch.view

theorem TextLoop.Printable.step (hl : l.Printable) (h : textBody writes l = .inl l') :
    l'.Printable := by
  obtain ⟨hline, key, item, hitem, hview⟩ := textBody_eq_inl h
  have hnewline : 10 ∉ l'.line := by
    rw [hline]
    exact not_mem_getline hl.line
  refine ⟨hnewline, ?_⟩
  rw [hview]
  apply hl.view.insert
  · exact fun hmem => (mem_of_mem_splitOn hitem hmem).2 rfl
  · exact fun hmem => hnewline (mem_of_mem_splitOn hitem hmem).1

/-- Whatever the file, what the text format adds to a printable database leaves it printable. -/
theorem printable_restore {db db' : Store} {stream : InputStream}
    (h : Restores env (some db) stream false (some db', .ok ())) (hdb : Printable db) :
    Printable db' := by
  obtain ⟨⟨db'', result⟩, hreturns, hresult⟩ := restores_text_iff.mp h
  obtain ⟨rfl, rfl⟩ := by simpa using hresult
  have hstart : TextLoop.Printable ⟨stream, [], { db := db }⟩ := ⟨by simp, hdb⟩
  have hdone : ∀ (l : TextLoop) (r : Store × Except Fault Unit), l.Printable →
      textBody env.writes l = .inr r → r.2 = .ok () → Printable r.1 := by
    rintro l ⟨db, _⟩ hl hbody rfl
    rw [textBody_eq_inr hbody]
    exact hl.view
  exact hreturns.post (fun _ _ hl hbody => hl.step hbody) hdone hstart rfl

/-- The text dump of a store, restored into an empty database, gives the store again exactly
    when no string of the store has a tab or a newline. -/
theorem restores_text_dump_iff (db : Store) (key : NumID) (memory : Nat → Nat → UInt8) :
    Restores { key := key, memory := memory } (some ∅)
        (.ofBytes (dump (newIterator db) [] false).1) false (some db, .ok ()) ↔
      ∀ (id : NumID) (v : Bytes), db[id]? = some v → 9 ∉ v ∧ 10 ∉ v := by
  constructor
  · intro h
    exact printable_restore h (by simp [Printable])
  · intro hdb
    have hreturns := text_returns db.toList (forall_mem_toList_iff.mpr hdb)
      ⟨.ofBytes (records false db.toList), [], { db := ∅ }⟩ rfl
    rw [dump_newIterator]
    have hall : some db = some (putEntries ∅ db.toList) := congrArg some (putAll_toList db).symm
    exact restores_text_iff.mpr ⟨_, hreturns, Prod.ext hall rfl⟩

/-- A tab cuts its value off, and behind a newline stands a record of its own. -/
theorem not_restores_text_dump :
    Restores { key := 0, memory := fun _ _ => 0 } (some ∅)
        (.ofBytes (dump (newIterator ((∅ : Store).insert 1 [97, 9, 98])) [] false).1) false
        (some ((∅ : Store).insert 1 [97]), .ok ()) ∧
      Restores { key := 0, memory := fun _ _ => 0 } (some ∅)
        (.ofBytes (dump (newIterator ((∅ : Store).insert 1 [97, 10, 50, 9, 98])) [] false).1) false
        (some (((∅ : Store).insert 1 [97]).insert 2 [98]), .ok ()) ∧
      ¬ Restores { key := 0, memory := fun _ _ => 0 } (some ∅)
        (.ofBytes (dump (newIterator ((∅ : Store).insert 1 [97, 9, 98])) [] false).1) false
        (some ((∅ : Store).insert 1 [97, 9, 98]), .ok ()) := by
  have htab : Restores { key := 0, memory := fun _ _ => 0 } (some ∅)
      (.ofBytes (dump (newIterator ((∅ : Store).insert 1 [97, 9, 98])) [] false).1) false
      (some ((∅ : Store).insert 1 [97]), .ok ()) :=
    ⟨2, by decide⟩
  refine ⟨htab, ⟨3, by decide⟩, ?_⟩
  intro h
  exact absurd (h.unique htab) (by decide)

end DiskStorage

end Numerator
