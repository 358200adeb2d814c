import Numerator.Lines
import Numerator.Restore

/-!
# The grammar of the text format

A line should be a key, one tab and a value. The loop converts the first of the
pieces between tabs and then takes the second one: it never looks whether there
is a second piece, or a third one. So a line without a tab is read out of range,
and a surplus tab cuts the value off.
-/

namespace Numerator

namespace DiskStorage

open Std FiniteMap InputStream

/-! ### One line -/

/-- A key, one tab and a value. -/
def Grammatical (line : Bytes) : Prop :=
  ∃ number value, line = number ++ 9 :: value ∧ (9 : UInt8) ∉ number ∧ (9 : UInt8) ∉ value ∧
    (lexicalCast number).isSome

/-- What stands before the first tab. -/
def keyField (line : Bytes) : Bytes := line.takeWhile (· ≠ 9)

def BadKey (line : Bytes) : Prop := lexicalCast (keyField line) = none

/-- What a line with a tab carries: its key, and everything behind the tab. -/
def carried (line : Bytes) : Option KVPair :=
  match line.dropWhile (· ≠ 9) with
  | [] => none
  | _tab :: value => (lexicalCast (keyField line)).map fun key => ⟨key, value⟩

/-- The line has a tab, and before it a key. -/
def Started (line : Bytes) : Bool := (lexicalCast (keyField line)).isSome && line.contains 9

instance : DecidablePred BadKey := fun _ => inferInstanceAs (Decidable (_ = none))

section Line

variable {line number rest : Bytes} {p : KVPair}

theorem tab_cases (line : Bytes) :
    (9 : UInt8) ∉ line ∨ ∃ number rest, line = number ++ 9 :: rest ∧ (9 : UInt8) ∉ number := by
  by_cases h : (9 : UInt8) ∈ line
  · obtain ⟨number, rest, heq, hnumber⟩ := List.eq_append_cons_of_mem h
    exact Or.inr ⟨number, rest, heq, hnumber⟩
  · exact Or.inl h

theorem keyField_of_not_mem (h : (9 : UInt8) ∉ line) : keyField line = line := by
  rw [keyField, List.takeWhile_eq_self_iff]
  exact forall_ne_of_not_mem h

theorem keyField_append (h : (9 : UInt8) ∉ number) (rest : Bytes) :
    keyField (number ++ 9 :: rest) = number := by
  rw [keyField, List.takeWhile_append_of_pos (forall_ne_of_not_mem h)]
  simp

theorem carried_append (h : (9 : UInt8) ∉ number) (rest : Bytes) :
    carried (number ++ 9 :: rest) = (lexicalCast number).map fun key => ⟨key, rest⟩ := by
  have hdrop : (number ++ 9 :: rest).dropWhile (· ≠ 9) = 9 :: rest := by
    rw [List.dropWhile_append_of_pos (forall_ne_of_not_mem h)]
    rfl
  rw [carried, hdrop, keyField_append h]

/-- The value is what stands before the next tab. -/
theorem parseLine_append (h : (9 : UInt8) ∉ number) {key : NumID}
    (hkey : lexicalCast number = some key) (rest : Bytes) :
    ∃ item, parseLine (number ++ 9 :: rest) = .ok ⟨key, item⟩ ∧
      (item = rest ↔ (9 : UInt8) ∉ rest) := by
  obtain ⟨item, items, hitems⟩ := List.exists_cons_of_ne_nil (List.splitOn_ne_nil 9 rest)
  refine ⟨item, ?_, ?_⟩
  · simp only [parseLine, List.splitOn_append_cons_self_of_not_mem h, hitems, hkey]
  · constructor
    · rintro rfl hmem
      exact (mem_of_mem_splitOn (hitems ▸ List.mem_cons_self) hmem).2 rfl
    · intro hrest
      rw [List.splitOn_eq_singleton hrest] at hitems
      exact ((List.cons.inj hitems).1).symm

theorem grammatical_append_iff (h : (9 : UInt8) ∉ number) {key : NumID}
    (hkey : lexicalCast number = some key) :
    Grammatical (number ++ 9 :: rest) ↔ (9 : UInt8) ∉ rest := by
  constructor
  · rintro ⟨number', value, heq, hnumber', hvalue, -⟩
    have hsplit := congrArg (List.splitOn 9) heq
    rw [List.splitOn_append_cons_self_of_not_mem h,
      List.splitOn_append_cons_self_of_not_mem hnumber', List.splitOn_eq_singleton hvalue] at hsplit
    intro hmem
    have hpiece := (List.cons.inj hsplit).2
    have hcount := congrArg (List.intercalate [9]) hpiece
    rw [List.intercalate_splitOn] at hcount
    rw [hcount] at hmem
    exact hvalue (by simpa using hmem)
  · intro hrest
    exact ⟨number, rest, rfl, h, hrest, by rw [hkey]; rfl⟩

/-- A line that has a key and a tab is taken for a pair, and for the pair that it carries
    exactly when it is grammatical. -/
theorem parseLine_of_started (h : Started line = true) :
    ∃ p, parseLine line = .ok p ∧ (carried line = some p ↔ Grammatical line) := by
  rw [Started, Bool.and_eq_true, List.contains_iff_mem, Option.isSome_iff_exists] at h
  obtain ⟨⟨key, hkey⟩, hmem⟩ := h
  rcases tab_cases line with hnone | ⟨number, rest, rfl, hnumber⟩
  · exact absurd hmem hnone
  · rw [keyField_append hnumber] at hkey
    obtain ⟨item, hparse, hitem⟩ := parseLine_append hnumber hkey rest
    refine ⟨⟨key, item⟩, hparse, ?_⟩
    rw [carried_append hnumber, hkey, Option.map_some, Option.some.injEq, KVPair.mk.injEq,
      grammatical_append_iff hnumber hkey, ← hitem, eq_comm (a := rest)]
    simp

theorem started_of_grammatical (h : Grammatical line) : Started line = true := by
  obtain ⟨number, value, rfl, hnumber, -, hkey⟩ := h
  rw [Started, keyField_append hnumber, hkey]
  simp

/-- Without a key the line throws; with a key and no tab it is read out of range. -/
theorem parseLine_of_not_started (h : Started line = false) :
    parseLine line =
      .error (if BadKey line then .exc (.badKey line) else .undefined .indexOutOfRange) := by
  rcases tab_cases line with hnone | ⟨number, rest, rfl, hnumber⟩
  · have hbad : BadKey line ↔ lexicalCast line = none := by
      rw [BadKey, keyField_of_not_mem hnone]
    rcases hkey : lexicalCast line with _ | key
    · rw [if_pos (hbad.mpr hkey)]
      simp [parseLine, List.splitOn_eq_singleton hnone, hkey]
    · rw [if_neg (by simp [hbad, hkey])]
      simp [parseLine, List.splitOn_eq_singleton hnone, hkey]
  · have hbad : BadKey (number ++ 9 :: rest) ↔ lexicalCast number = none := by
      rw [BadKey, keyField_append hnumber]
    rcases hkey : lexicalCast number with _ | key
    · rw [if_pos (hbad.mpr hkey)]
      simp [parseLine, List.splitOn_append_cons_self_of_not_mem hnumber, hkey]
    · rw [Started, keyField_append hnumber, hkey] at h
      simp at h

end Line

/-! ### What is handed to `write` -/

/-- The pairs that collecting one more hands to `write`. -/
def Batch.flushed (p : KVPair) (b : Batch) : List KVPair :=
  if (b.kvPairs ++ [p]).length ≥ kRestoreBatchSize then b.kvPairs ++ [p] else []

/-- The pairs that a round hands to `write`. -/
def textHands (l : TextLoop) : List KVPair :=
  match l.stream.getline l.line with
  | (line, stream) =>
    if stream.fails then l.batch.kvPairs
    else
      match parseLine line with
      | .error _ => []
      | .ok p => l.batch.flushed p

/-- The loop without its stream: what it hands to `write`, and how it ends. -/
def restoreLines : Batch → List Bytes → List KVPair × Store × Except Fault Unit
  | b, [] => (b.kvPairs, b.finish fun _ => .ok)
  | b, line :: lines =>
    match parseLine line with
    | .error f => ([], b.db, .error f)
    | .ok p =>
      match restoreLines (b.push (fun _ => .ok) p).1 lines with
      | (handed, result) => (b.flushed p ++ handed, result)

theorem logs_restoreLines (lines : List Bytes) (l : TextLoop) (h : l.stream.HasLines lines) :
    WhileLoop.Logs (textBody fun _ => .ok) textHands l (restoreLines l.batch lines).1
      (restoreLines l.batch lines).2 := by
  induction lines generalizing l with
  | nil =>
    have hfails := h.getline_nil l.line
    have hhands : textHands l = l.batch.kvPairs := by
      simp only [textHands, hfails, if_true]
    have hbody : textBody (fun _ => .ok) l = .inr (l.batch.finish fun _ => .ok) := by
      simp only [textBody_eq, hfails, if_true]
    rw [restoreLines, ← hhands]
    exact WhileLoop.logs_of_done textHands hbody
  | cons line lines ih =>
    obtain ⟨s', hgetline, hfails, hlines⟩ := h.getline_cons l.line
    rw [restoreLines]
    rcases hparse : parseLine line with f | p
    · have hhands : textHands l = [] := by
        simp only [textHands, hgetline, hfails, Bool.false_eq_true, if_false, hparse]
      have hbody : textBody (fun _ => .ok) l = .inr (l.batch.db, .error f) := by
        simp only [textBody_eq, hgetline, hfails, Bool.false_eq_true, if_false, hparse]
      have hdone := WhileLoop.logs_of_done textHands hbody
      rwa [hhands] at hdone
    · obtain ⟨b, hpush⟩ := l.batch.push_ok p
      have hhands : textHands l = l.batch.flushed p := by
        simp only [textHands, hgetline, hfails, Bool.false_eq_true, if_false, hparse]
      have hbody : textBody (fun _ => .ok) l = .inl ⟨s', line, b⟩ := by
        simp only [textBody_eq, hgetline, hfails, Bool.false_eq_true, if_false, hparse, hpush]
      have hrest := (ih ⟨s', line, b⟩ hlines).step hbody
      rw [hhands] at hrest
      simp only [hpush]
      exact hrest

/-- A collected pair is pending or has been handed over, together with all before it. -/
theorem Batch.push_flushed (b : Batch) (p : KVPair) :
    b.flushed p ++ (b.push (fun _ => .ok) p).1.kvPairs = b.kvPairs ++ [p] ∧
      (b.push (fun _ => .ok) p).1.db = putBatch b.db (b.flushed p) := by
  unfold Batch.push Batch.flushed
  dsimp only
  split
  · simp [Batch.write, DiskStorage.write]
  · exact ⟨rfl, rfl⟩

/-- The handed pairs are those in the database. -/
theorem restoreLines_store (b : Batch) (lines : List Bytes) :
    (restoreLines b lines).2.1 = putBatch b.db (restoreLines b lines).1 := by
  induction lines generalizing b with
  | nil => rw [restoreLines, Batch.finish_ok, Batch.view]
  | cons line lines ih =>
    rw [restoreLines]
    split
    · rfl
    · rename_i p hparse
      dsimp only
      rw [ih, (b.push_flushed p).2, putBatch, putBatch, putBatch, putAll_append]

section Lines

variable {lines front : List Bytes} {line : Bytes} {pairs : List KVPair} {f : Fault}

theorem restoreLines_of_ok (b : Batch) (hpairs : lines.map parseLine = pairs.map .ok) :
    (restoreLines b lines).1 = b.kvPairs ++ pairs ∧ (restoreLines b lines).2.2 = .ok () := by
  induction lines generalizing b pairs with
  | nil =>
    have hnil : pairs = [] := List.map_eq_nil_iff.mp hpairs.symm
    rw [restoreLines, Batch.finish_ok, hnil, List.append_nil]
    exact ⟨rfl, rfl⟩
  | cons line lines ih =>
    obtain ⟨p, pairs, rfl, hp, hrest⟩ := List.map_eq_cons_iff.mp hpairs.symm
    obtain ⟨hhanded, hresult⟩ := ih (b.push (fun _ => .ok) p).1 hrest.symm
    simp only [restoreLines, ← hp]
    rw [hhanded, ← List.append_assoc, (b.push_flushed p).1]
    exact ⟨by simp, hresult⟩

/-- Up to a line that is not taken for a pair, whole batches have been handed over. -/
theorem restoreLines_of_error (back : List Bytes) (b : Batch)
    (hb : b.kvPairs.length < kRestoreBatchSize)
    (hpairs : front.map parseLine = pairs.map .ok) (hline : parseLine line = .error f) :
    (restoreLines b (front ++ line :: back)).1 =
        (b.kvPairs ++ pairs).take (kRestoreBatchSize *
          ((b.kvPairs.length + pairs.length) / kRestoreBatchSize)) ∧
      (restoreLines b (front ++ line :: back)).2.2 = .error f := by
  induction front generalizing b pairs with
  | nil =>
    have hnil : pairs = [] := List.map_eq_nil_iff.mp hpairs.symm
    simp [restoreLines, hline, hnil, Nat.div_eq_of_lt hb]
  | cons line' front ih =>
    obtain ⟨p, pairs, rfl, hp, hrest⟩ := List.map_eq_cons_iff.mp hpairs.symm
    simp only [List.cons_append, restoreLines, ← hp]
    by_cases hfull : (b.kvPairs ++ [p]).length ≥ kRestoreBatchSize
    · have hpush : (b.push (fun _ => .ok) p).1.kvPairs = [] := by
        simp only [Batch.push, hfull, if_true, Batch.write, DiskStorage.write]
      have hflushed : b.flushed p = b.kvPairs ++ [p] := if_pos hfull
      have hlength : (b.kvPairs ++ [p]).length = kRestoreBatchSize := by
        simp only [List.length_append, List.length_singleton] at hfull ⊢
        omega
      obtain ⟨hhanded, hresult⟩ := ih (b.push (fun _ => .ok) p).1
        (by rw [hpush]; simp [kRestoreBatchSize]) hrest.symm
      refine ⟨?_, hresult⟩
      have hcount : b.kvPairs.length + (p :: pairs).length = kRestoreBatchSize + pairs.length := by
        rw [← hlength]
        simp only [List.length_append, List.length_cons, List.length_nil]
        omega
      have hlist : b.kvPairs ++ p :: pairs = (b.kvPairs ++ [p]) ++ pairs := List.append_cons _ _ _
      rw [hhanded, hpush, hflushed, hcount, hlist, List.nil_append, List.length_nil, Nat.zero_add,
        Nat.add_div_left _ (by simp [kRestoreBatchSize]), Nat.mul_add_one, Nat.add_comm,
        ← hlength, List.take_length_add_append]
    · have hpush : (b.push (fun _ => .ok) p).1.kvPairs = b.kvPairs ++ [p] := by
        simp only [Batch.push, hfull, if_false]
      have hflushed : b.flushed p = [] := if_neg hfull
      obtain ⟨hhanded, hresult⟩ := ih (b.push (fun _ => .ok) p).1
        (by rw [hpush]; omega) hrest.symm
      refine ⟨?_, hresult⟩
      have hcount : (b.kvPairs ++ [p]).length + pairs.length =
          b.kvPairs.length + (p :: pairs).length := by
        simp only [List.length_append, List.length_cons, List.length_nil]
        omega
      rw [hhanded, hpush, hflushed, hcount, List.nil_append, ← List.append_cons]

end Lines

/-! ### What is expected -/

/-- The outcome for a file with these lines: it is accepted exactly when it is grammatical, and
    otherwise an exception is thrown; what is handed to `write` until then is what the lines
    carry, one after the other. -/
structure MeetsGrammar (db : Store) (lines : List Bytes) (handed : List KVPair) (store : Store)
    (result : Except Fault Unit) : Prop where
  accepts : result = .ok () ↔ ∀ line ∈ lines, Grammatical line
  rejects : (¬ ∀ line ∈ lines, Grammatical line) → ∃ e, result = .error (.exc e)
  inRange : result ≠ .error (.undefined .indexOutOfRange)
  carries : handed.map some <+: lines.map carried
  written : store = putBatch db handed

/-- The first line that is not taken for a pair has no key, and no line of the full batches
    before it has a second tab. -/
def RejectedInTime (lines : List Bytes) : Prop :=
  ∃ line back, lines.dropWhile Started = line :: back ∧ BadKey line ∧
    ∀ l ∈ (lines.takeWhile Started).take
      (kRestoreBatchSize * ((lines.takeWhile Started).length / kRestoreBatchSize)), Grammatical l

/-- Lines that have a key and a tab are taken for pairs, and the first `n` of them for the
    pairs that they carry exactly when those lines are grammatical. -/
theorem exists_pairs (front : List Bytes) (hfront : ∀ l ∈ front, Started l = true) :
    ∃ pairs : List KVPair, front.map parseLine = pairs.map .ok ∧
      ∀ n, (pairs.take n).map some = (front.take n).map carried ↔
        ∀ l ∈ front.take n, Grammatical l := by
  induction front with
  | nil => exact ⟨[], rfl, by simp⟩
  | cons line front ih =>
    rw [List.forall_mem_cons] at hfront
    obtain ⟨p, hparse, hcarried⟩ := parseLine_of_started hfront.1
    obtain ⟨pairs, hpairs, htake⟩ := ih hfront.2
    refine ⟨p :: pairs, by rw [List.map_cons, List.map_cons, hparse, hpairs], ?_⟩
    intro n
    cases n with
    | zero => simp
    | succ n =>
      rw [List.take_succ_cons, List.take_succ_cons, List.map_cons, List.map_cons, List.cons.injEq,
        htake n, List.forall_mem_cons, eq_comm (a := some p), hcarried]

/-- When every line is taken for a pair, the file is accepted. -/
theorem meetsGrammar_iff_of_started (db : Store) {lines : List Bytes}
    (hlines : lines.dropWhile Started = []) :
    MeetsGrammar db lines (restoreLines { db := db } lines).1 (restoreLines { db := db } lines).2.1
        (restoreLines { db := db } lines).2.2 ↔
      ∀ line ∈ lines, Grammatical line := by
  obtain ⟨pairs, hpairs, htake⟩ := exists_pairs lines (List.dropWhile_eq_nil_iff.mp hlines)
  have hlength : pairs.length = lines.length := by
    simpa using (congrArg List.length hpairs).symm
  obtain ⟨hhanded, hresult⟩ := restoreLines_of_ok { db := db } hpairs
  rw [List.nil_append] at hhanded
  have hall := htake lines.length
  rw [← hlength, List.take_length, hlength, List.take_length] at hall
  constructor
  · intro h
    exact h.accepts.mp hresult
  · intro hgrammatical
    refine ⟨⟨fun _ => hgrammatical, fun _ => hresult⟩, fun hnot => absurd hgrammatical hnot,
      by simp [hresult], ?_, restoreLines_store { db := db } lines⟩
    rw [hhanded, hall.mpr hgrammatical]

section Stopped

variable {lines back : List Bytes} {line : Bytes} (hrest : lines.dropWhile Started = line :: back)

include hrest

theorem started_eq_false : Started line = false := by
  have hhead := List.head_dropWhile_not Started (l := lines) (by simp [hrest])
  simpa [hrest] using hhead

theorem split_at_stop : lines.takeWhile Started ++ line :: back = lines := by
  rw [← hrest, List.takeWhile_append_dropWhile]

theorem not_forall_grammatical : ¬ ∀ l ∈ lines, Grammatical l := by
  intro hgrammatical
  have hline : line ∈ lines := by
    rw [← split_at_stop hrest]
    simp
  have hstarted := started_of_grammatical (hgrammatical line hline)
  rw [started_eq_false hrest] at hstarted
  cases hstarted

/-- What is handed over before the loop stops are the whole batches of the lines before. -/
theorem carries_iff_of_stop (db : Store) :
    (restoreLines { db := db } lines).1.map some <+: lines.map carried ↔
      ∀ l ∈ (lines.takeWhile Started).take
        (kRestoreBatchSize * ((lines.takeWhile Started).length / kRestoreBatchSize)),
        Grammatical l := by
  obtain ⟨pairs, hpairs, htake⟩ :=
    exists_pairs (lines.takeWhile Started) fun l hl => List.mem_takeWhile_imp hl
  have hlength : pairs.length = (lines.takeWhile Started).length := by
    simpa using (congrArg List.length hpairs).symm
  have hhanded := (restoreLines_of_error back { db := db } (by simp [kRestoreBatchSize]) hpairs
    (parseLine_of_not_started (started_eq_false hrest))).1
  rw [split_at_stop hrest, List.nil_append, List.length_nil, Nat.zero_add, hlength] at hhanded
  set n := kRestoreBatchSize * ((lines.takeWhile Started).length / kRestoreBatchSize) with hn
  have hle : n ≤ (lines.takeWhile Started).length := Nat.mul_div_le _ _
  have hfront : (lines.map carried).take n = ((lines.takeWhile Started).take n).map carried := by
    conv_lhs => rw [← split_at_stop hrest]
    rw [← List.map_take, List.take_append_of_le_length hle]
  rw [← htake n, hhanded, List.prefix_iff_eq_take, List.length_map, List.length_take, hlength,
    Nat.min_eq_left hle, hfront]

/-- When a line stops the loop, it has to be one without a key. -/
theorem meetsGrammar_iff_of_stop (db : Store) :
    MeetsGrammar db lines (restoreLines { db := db } lines).1 (restoreLines { db := db } lines).2.1
        (restoreLines { db := db } lines).2.2 ↔
      BadKey line ∧ ∀ l ∈ (lines.takeWhile Started).take
        (kRestoreBatchSize * ((lines.takeWhile Started).length / kRestoreBatchSize)),
        Grammatical l := by
  obtain ⟨pairs, hpairs, -⟩ :=
    exists_pairs (lines.takeWhile Started) fun l hl => List.mem_takeWhile_imp hl
  have hresult := (restoreLines_of_error back { db := db } (by simp [kRestoreBatchSize]) hpairs
    (parseLine_of_not_started (started_eq_false hrest))).2
  rw [split_at_stop hrest] at hresult
  have hnot := not_forall_grammatical hrest
  rw [← carries_iff_of_stop hrest db]
  constructor
  · intro h
    refine ⟨?_, h.carries⟩
    by_contra hbad
    rw [if_neg hbad] at hresult
    exact h.inRange hresult
  · rintro ⟨hbad, hcarries⟩
    rw [if_pos hbad] at hresult
    exact ⟨by simp [hresult, hnot], fun _ => ⟨_, hresult⟩, by simp [hresult], hcarries,
      restoreLines_store { db := db } lines⟩

end Stopped

theorem meetsGrammar_iff (db : Store) (lines : List Bytes) :
    MeetsGrammar db lines (restoreLines { db := db } lines).1 (restoreLines { db := db } lines).2.1
        (restoreLines { db := db } lines).2.2 ↔
      (∀ line ∈ lines, Grammatical line) ∨ RejectedInTime lines := by
  rcases hrest : lines.dropWhile Started with _ | ⟨line, back⟩
  · rw [meetsGrammar_iff_of_started db hrest]
    refine ⟨Or.inl, ?_⟩
    rintro (hgrammatical | ⟨line, back, hcons, -⟩)
    · exact hgrammatical
    · rw [hrest] at hcons
      cases hcons
  · rw [meetsGrammar_iff_of_stop hrest db]
    constructor
    · intro h
      exact Or.inr ⟨line, back, hrest, h⟩
    · rintro (hgrammatical | ⟨line', back', hcons, h⟩)
      · exact absurd hgrammatical (not_forall_grammatical hrest)
      · rw [hrest] at hcons
        cases hcons
        exact h

/-- The text restore of a file is what its grammar says exactly when the file is grammatical or
    is rejected in time. -/
theorem text_meets_grammar_iff (db : Store) (content : Bytes) (key : NumID)
    (memory : Nat → Nat → UInt8) :
    (∃ handed store result,
      Restores { key := key, memory := memory } (some db) (.ofBytes content) false
          (some store, result) ∧
        WhileLoop.Logs (textBody fun _ => .ok) textHands ⟨.ofBytes content, [], { db := db }⟩
          handed (store, result) ∧
        MeetsGrammar db (fileLines content) handed store result) ↔
      (∀ line ∈ fileLines content, Grammatical line) ∨ RejectedInTime (fileLines content) := by
  rw [← meetsGrammar_iff db]
  have hlogs := logs_restoreLines (fileLines content) ⟨.ofBytes content, [], { db := db }⟩
    (hasLines_ofBytes content)
  constructor
  · rintro ⟨handed, store, result, -, hlogs', hmeets⟩
    obtain ⟨hhanded, hresult⟩ := hlogs.unique hlogs'
    rwa [hhanded, hresult]
  · intro hmeets
    exact ⟨_, _, _, restores_text_iff.mpr ⟨_, hlogs.returns, rfl⟩, hlogs, hmeets⟩

/-- A key without a tab is read out of range, and with a second tab the value is cut off. -/
theorem not_meetsGrammar_tabs :
    Restores { key := 0, memory := fun _ _ => 0 } (some ∅) (.ofBytes [49, 10]) false
        (some ∅, .error (.undefined .indexOutOfRange)) ∧
      Restores { key := 0, memory := fun _ _ => 0 } (some ∅) (.ofBytes [49, 9, 97, 9, 98, 10]) false
        (some ((∅ : Store).insert 1 [97]), .ok ()) ∧
      ∀ content ∈ [[49, 10], [49, 9, 97, 9, 98, 10]], ¬ ∃ handed store result,
        Restores { key := 0, memory := fun _ _ => 0 } (some ∅) (.ofBytes content) false
            (some store, result) ∧
          WhileLoop.Logs (textBody fun _ => .ok) textHands ⟨.ofBytes content, [], { db := ∅ }⟩
            handed (store, result) ∧
          MeetsGrammar ∅ (fileLines content) handed store result := by
  have hnoTab : Restores { key := 0, memory := fun _ _ => 0 } (some ∅) (.ofBytes [49, 10]) false
      (some ∅, .error (.undefined .indexOutOfRange)) :=
    ⟨1, by decide⟩
  have htwoTabs : Restores { key := 0, memory := fun _ _ => 0 } (some ∅)
      (.ofBytes [49, 9, 97, 9, 98, 10]) false (some ((∅ : Store).insert 1 [97]), .ok ()) :=
    ⟨2, by decide⟩
  refine ⟨hnoTab, htwoTabs, ?_⟩
  rintro content hcontent ⟨handed, store, result, hrestores, -, hmeets⟩
  rcases List.mem_cons.mp hcontent with rfl | hcontent
  · cases hrestores.unique hnoTab
    exact hmeets.inRange rfl
  · obtain rfl := List.mem_singleton.mp hcontent
    cases hrestores.unique htwoTabs
    have hline := hmeets.accepts.mp rfl [49, 9, 97, 9, 98] (by decide)
    have hkey : lexicalCast [49] = some 1 := by decide
    have htab : (9 : UInt8) ∉ [97, 9, 98] := (grammatical_append_iff (by decide) hkey).mp hline
    exact absurd htab (by decide)

end DiskStorage

end Numerator
