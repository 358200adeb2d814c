import Numerator.Dump
import Numerator.InputStream
import Numerator.WhileLoop

/-!
# Reading a dump

`DiskStorage::restore`. Both formats are read in a loop that collects pairs and
writes them in batches; how the stream, the locals and the collected pairs
change in one round is `textBody` and `binaryBody`. A local that the source
leaves uninitialised, and memory that it reserves without writing it, have
whatever content `RestoreEnv` gives them.
-/

namespace Numerator

namespace DiskStorage

open Std FiniteMap

def kRestoreBatchSize : Nat := 10000

/-- What a call finds: the content of `key` before its first assignment, the bytes that
    the memory reserved in a round holds, and the replies to its writes. -/
structure RestoreEnv where
  key : NumID
  memory : Nat → Nat → UInt8
  writes : Nat → WriteReply := fun _ => .ok

/-! ### The batch -/

/-- The database, the collected pairs and the number of writes so far. -/
structure Batch where
  db : Store
  kvPairs : List KVPair := []
  written : Nat := 0

namespace Batch

def write (writes : Nat → WriteReply) (b : Batch) : Batch × Except Fault Unit :=
  match DiskStorage.write (writes b.written) b.db b.kvPairs with
  | (db, result) => ({ b with db := db, written := b.written + 1 }, result)

def push (writes : Nat → WriteReply) (p : KVPair) (b : Batch) : Batch × Except Fault Unit :=
  let b' := { b with kvPairs := b.kvPairs ++ [p] }
  if b'.kvPairs.length ≥ kRestoreBatchSize then
    match b'.write writes with
    | (b'', .error f) => (b'', .error f)
    | (b'', .ok ()) => ({ b'' with kvPairs := [] }, .ok ())
  else (b', .ok ())

/-- The flush after the loop. -/
def finish (writes : Nat → WriteReply) (b : Batch) : Store × Except Fault Unit :=
  if b.kvPairs.length ≠ 0 then
    match b.write writes with
    | (b', result) => (b'.db, result)
  else (b.db, .ok ())

/-- The database with the collected pairs in it. -/
def view (b : Batch) : Store := putBatch b.db b.kvPairs

variable {writes : Nat → WriteReply} {p : KVPair} {b b' : Batch}

theorem write_eq_ok (h : b.write writes = (b', .ok ())) :
    b'.db = b.view ∧ b'.kvPairs = b.kvPairs := by
  unfold write DiskStorage.write at h
  split at h
  rename_i db result hwrite
  split at hwrite
  · cases hwrite
    cases h
    exact ⟨rfl, rfl⟩
  · cases hwrite
    cases h

/-- Whether or not it is written now, a pair takes effect in the order it was read. -/
theorem push_eq_ok (h : b.push writes p = (b', .ok ())) :
    b'.view = b.view.insert p.key p.value := by
  have hview : putBatch b.db (b.kvPairs ++ [p]) = b.view.insert p.key p.value := by
    rw [view, putBatch, putBatch, putAll_concat]
  unfold push at h
  dsimp only at h
  split at h
  · split at h
    · cases h
    · rename_i b'' hwrite
      cases h
      obtain ⟨hdb, -⟩ := write_eq_ok hwrite
      rw [← hview]
      exact hdb
  · cases h
    exact hview

theorem finish_eq_ok {db : Store} (h : b.finish writes = (db, .ok ())) : db = b.view := by
  unfold finish at h
  split at h
  · split at h
    rename_i b' result hwrite
    cases h
    exact (write_eq_ok hwrite).1
  · rename_i hempty
    cases h
    have hnil : b.kvPairs = [] := List.length_eq_zero_iff.mp (not_not.mp hempty)
    rw [view, hnil]
    rfl

/-- With writes that succeed a batch never fails. -/
theorem push_ok (b : Batch) (p : KVPair) : ∃ b', b.push (fun _ => .ok) p = (b', .ok ()) := by
  unfold push write DiskStorage.write
  dsimp only
  split
  · exact ⟨_, rfl⟩
  · exact ⟨_, rfl⟩

theorem finish_ok (b : Batch) : b.finish (fun _ => .ok) = (b.view, .ok ()) := by
  have hok : ∃ db, b.finish (fun _ => .ok) = (db, .ok ()) := by
    unfold finish write DiskStorage.write
    dsimp only
    split
    · exact ⟨_, rfl⟩
    · exact ⟨_, rfl⟩
  obtain ⟨db, hdb⟩ := hok
  rw [hdb, finish_eq_ok hdb]

end Batch

/-! ### The text format -/

/-- `boost::lexical_cast<NumID>` -/
def lexicalCast (s : Bytes) : Option NumID :=
  match Decimal.parseInt s with
  | some i => if -2 ^ 63 ≤ i ∧ i < 2 ^ 63 then some (Int64.ofInt i) else none
  | none => none

/-- The strings that are converted: the decimal numbers in the range of an id. -/
theorem lexicalCast_eq_some_iff {s : Bytes} {id : NumID} :
    lexicalCast s = some id ↔ Decimal.Denotes s id.toInt := by
  rw [← Decimal.parseInt_eq_some_iff]
  unfold lexicalCast
  rcases Decimal.parseInt s with _ | i
  · simp
  · dsimp only
    rw [Option.some.injEq]
    constructor
    · intro h
      split at h
      · rename_i hrange
        cases h
        exact (Int64.toInt_ofInt_of_le hrange.1 hrange.2).symm
      · cases h
    · rintro rfl
      rw [if_pos ⟨id.le_toInt, id.toInt_lt⟩, Int64.ofInt_toInt]

structure TextLoop where
  stream : InputStream
  line : Bytes
  batch : Batch

/-- A line without a tab passes the conversion of `items[0]` and then has no `items[1]`. -/
def textBody (writes : Nat → WriteReply) (l : TextLoop) :
    TextLoop ⊕ (Store × Except Fault Unit) :=
  match l.stream.getline l.line with
  | (line, stream) =>
    if stream.fails then .inr (l.batch.finish writes)
    else
      match line.splitOn 9 with
      | [] => .inr (l.batch.db, .error (.undefined .indexOutOfRange))
      | item₀ :: items =>
        match lexicalCast item₀ with
        | none => .inr (l.batch.db, .error (.exc (.badKey line)))
        | some key =>
          match items with
          | [] => .inr (l.batch.db, .error (.undefined .indexOutOfRange))
          | item₁ :: _ =>
            match l.batch.push writes ⟨key, item₁⟩ with
            | (b, .error f) => .inr (b.db, .error f)
            | (b, .ok ()) => .inl ⟨stream, line, b⟩

/-- The pair that a line is taken for. -/
def parseLine (line : Bytes) : Except Fault KVPair :=
  match line.splitOn 9 with
  | [] => .error (.undefined .indexOutOfRange)
  | item₀ :: items =>
    match lexicalCast item₀ with
    | none => .error (.exc (.badKey line))
    | some key =>
      match items with
      | [] => .error (.undefined .indexOutOfRange)
      | item₁ :: _ => .ok ⟨key, item₁⟩

theorem textBody_eq (writes : Nat → WriteReply) (l : TextLoop) :
    textBody writes l =
      match l.stream.getline l.line with
      | (line, stream) =>
        if stream.fails then .inr (l.batch.finish writes)
        else
          match parseLine line with
          | .error f => .inr (l.batch.db, .error f)
          | .ok p =>
            match l.batch.push writes p with
            | (b, .error f) => .inr (b.db, .error f)
            | (b, .ok ()) => .inl ⟨stream, line, b⟩ := by
  unfold textBody parseLine
  rcases l.stream.getline l.line with ⟨line, stream⟩
  dsimp only
  split
  · rfl
  · rcases line.splitOn 9 with _ | ⟨item₀, items⟩
    · rfl
    · dsimp only
      rcases lexicalCast item₀ with _ | key
      · rfl
      · rcases items with _ | ⟨item₁, items⟩ <;> rfl

/-! ### The binary format -/

structure BinaryLoop where
  stream : InputStream
  key : NumID
  valueSize : UInt32
  buffer : Bytes
  round : Nat
  batch : Batch

/-- `buffer.reserve(value_size)`: memory that is too small is given up for new one. The
    vector stays empty, only the memory behind it is used. -/
def reserve (memory : Nat → UInt8) (valueSize : Nat) (buffer : Bytes) : Bytes :=
  if buffer.length < valueSize then (List.range valueSize).map memory else buffer

/-- Only eof ends the loop, and none of the three reads is checked: what a read does not
    deliver keeps its old content. -/
def binaryBody (env : RestoreEnv) (l : BinaryLoop) : BinaryLoop ⊕ (Store × Except Fault Unit) :=
  if l.stream.eofbit then .inr (l.batch.finish env.writes)
  else
    match l.stream.read 8 with
    | (keyBytes, stream₁) =>
      match stream₁.read 4 with
      | (sizeBytes, stream₂) =>
        let key := NumID.ofBytes (InputStream.overwrite l.key.bytes keyBytes)
        let valueSize := UInt32.ofNat (LittleEndian.decode
          (InputStream.overwrite (LittleEndian.encode 4 l.valueSize.toNat) sizeBytes))
        let buffer := reserve (env.memory l.round) valueSize.toNat l.buffer
        match stream₂.read valueSize.toNat with
        | (valueBytes, stream₃) =>
          let buffer := InputStream.overwrite buffer valueBytes
          match l.batch.push env.writes ⟨key, buffer.take valueSize.toNat⟩ with
          | (b, .error f) => .inr (b.db, .error f)
          | (b, .ok ()) => .inl ⟨stream₃, key, valueSize, buffer, l.round + 1, b⟩

/-! ### `restore` -/

/-- The database is `none` before `init`. Nothing is returned when the fuel is used up. -/
def restore (env : RestoreEnv) (fuel : Nat) (db : Option Store) (stream : InputStream)
    (binaryDump : Bool) : Option (Option Store × Except Fault Unit) :=
  match db with
  | none => some (none, .error (.exc .notInitialized))
  | some db =>
    if !binaryDump then
      (WhileLoop.run (textBody env.writes) fuel ⟨stream, [], { db := db }⟩).map fun r =>
        (some r.1, r.2)
    else
      match stream.read 4 with
      | (magicBytes, stream) =>
        let magicNumber := UInt32.ofNat (LittleEndian.decode
          (InputStream.overwrite (LittleEndian.encode 4 0) magicBytes))
        if magicNumber = kBinaryDumpMagicNumber then
          (WhileLoop.run (binaryBody env) fuel ⟨stream, env.key, 0, [], 0, { db := db }⟩).map
            fun r => (some r.1, r.2)
        else
          some (some db, .error (.exc
            (.badMagicNumber magicNumber.toNat kBinaryDumpMagicNumber.toNat)))

/-- Puts of entries in the order of the list. -/
def putEntries (db : Store) (entries : List (NumID × Bytes)) : Store :=
  putAll Prod.fst Prod.snd db entries

/-- The call returns, with this database and this result. -/
def Restores (env : RestoreEnv) (db : Option Store) (stream : InputStream) (binaryDump : Bool)
    (r : Option Store × Except Fault Unit) : Prop :=
  ∃ fuel, restore env fuel db stream binaryDump = some r

variable {env : RestoreEnv} {db : Store} {result : Store × Except Fault Unit}

theorem restore_add {fuel : Nat} {db : Option Store} {stream : InputStream} {binaryDump : Bool}
    {r : Option Store × Except Fault Unit} (h : restore env fuel db stream binaryDump = some r)
    (k : Nat) : restore env (fuel + k) db stream binaryDump = some r := by
  unfold restore at h ⊢
  split at h
  · exact h
  · dsimp only at h ⊢
    split at h
    · rename_i htext
      obtain ⟨result, hrun, hr⟩ := Option.map_eq_some_iff.mp h
      rw [if_pos htext, WhileLoop.run_add hrun k]
      exact congrArg some hr
    · rename_i hbinary
      rw [if_neg hbinary]
      split at h
      · rename_i hmagic
        obtain ⟨result, hrun, hr⟩ := Option.map_eq_some_iff.mp h
        rw [if_pos hmagic, WhileLoop.run_add hrun k]
        exact congrArg some hr
      · rename_i hmagic
        rw [if_neg hmagic]
        exact h

/-- A call that returns has one result, however long it is run. -/
theorem Restores.unique {db : Option Store} {stream : InputStream} {binaryDump : Bool}
    {r r' : Option Store × Except Fault Unit} (h : Restores env db stream binaryDump r)
    (h' : Restores env db stream binaryDump r') : r = r' := by
  obtain ⟨fuel, hr⟩ := h
  obtain ⟨fuel', hr'⟩ := h'
  exact WhileLoop.unique_of_add (fun n => restore env n db stream binaryDump)
    (fun _ _ => restore_add) hr hr'

theorem restores_text_iff {stream : InputStream} {r : Option Store × Except Fault Unit} :
    Restores env (some db) stream false r ↔
      ∃ result, WhileLoop.Returns (textBody env.writes) ⟨stream, [], { db := db }⟩ result ∧
        r = (some result.1, result.2) := by
  simp only [Restores, restore, Bool.not_false, if_true, Option.map_eq_some_iff]
  constructor
  · rintro ⟨fuel, result, hrun, rfl⟩
    exact ⟨result, ⟨fuel, hrun⟩, rfl⟩
  · rintro ⟨result, ⟨fuel, hrun⟩, rfl⟩
    exact ⟨fuel, result, hrun, rfl⟩

/-- Behind the magic number the binary format is its loop. -/
theorem restores_binary_iff {rest : Bytes} {ending : Ending}
    {r : Option Store × Except Fault Unit} :
    Restores env (some db) { rest := dumpHeader true ++ rest, ending := ending } true r ↔
      ∃ result, WhileLoop.Returns (binaryBody env)
          ⟨{ rest := rest, ending := ending }, env.key, 0, [], 0, { db := db }⟩ result ∧
        r = (some result.1, result.2) := by
  have hread : InputStream.read 4 { rest := dumpHeader true ++ rest, ending := ending } =
      (dumpHeader true, { rest := rest, ending := ending }) :=
    InputStream.read_append (by simp [dumpHeader])
  have hmagic : UInt32.ofNat (LittleEndian.decode
      (InputStream.overwrite (LittleEndian.encode 4 0) (dumpHeader true))) =
        kBinaryDumpMagicNumber := by
    decide
  simp only [Restores, restore, Bool.not_true, Bool.false_eq_true, if_false, hread, hmagic,
    if_true, Option.map_eq_some_iff]
  constructor
  · rintro ⟨fuel, result, hrun, rfl⟩
    exact ⟨result, ⟨fuel, hrun⟩, rfl⟩
  · rintro ⟨result, ⟨fuel, hrun⟩, rfl⟩
    exact ⟨fuel, result, hrun, rfl⟩

end DiskStorage

end Numerator
