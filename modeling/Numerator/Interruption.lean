import Numerator.BinaryTermination
import Numerator.ExportImport
import Numerator.RestoreFold
import Numerator.TextGrammar

/-!
# Imports that are interrupted

`numimport` may be killed at any point, and any of its writes may fail. It has
written the records up to some point of the file then, and none but these. What
it reads in a round depends neither on the database nor on the writes, so the
rounds of a restore that succeeds say what the rounds of any other one do.
-/

namespace Numerator

open Std FiniteMap InputStream

namespace DiskStorage

/-- The database of a loop that has ended or is killed. A kill within a round leaves what the
    round has found or what it leaves itself, for a round makes one write at most. -/
def storeOf {l : Type} (batch : l → Batch) : l ⊕ (Store × Except Fault Unit) → Store
  | .inl loop => (batch loop).db
  | .inr result => result.1

/-- The database when `restore` is killed after so many rounds of its loop, if it has not
    returned before. -/
def restoreUntil (env : RestoreEnv) (rounds : Nat) (db : Store) (stream : InputStream)
    (binaryDump : Bool) : Store :=
  if !binaryDump then
    storeOf TextLoop.batch
      (WhileLoop.after (textBody env.writes) rounds ⟨stream, [], { db := db }⟩)
  else
    match stream.read 4 with
    | (magicBytes, stream) =>
      let magicNumber := UInt32.ofNat (LittleEndian.decode
        (InputStream.overwrite (LittleEndian.encode 4 0) magicBytes))
      if magicNumber = kBinaryDumpMagicNumber then
        storeOf BinaryLoop.batch
          (WhileLoop.after (binaryBody env) rounds ⟨stream, env.key, 0, [], 0, { db := db }⟩)
      else db

/-- A call that returns has left its result before the kill. -/
theorem restoreUntil_of_restore {env : RestoreEnv} {rounds : Nat} {db : Store}
    {stream : InputStream} {binaryDump : Bool} {r : Option Store × Except Fault Unit}
    (h : restore env rounds (some db) stream binaryDump = some r) :
    r.1 = some (restoreUntil env rounds db stream binaryDump) := by
  unfold restore at h
  unfold restoreUntil
  dsimp only at h ⊢
  split at h
  · rename_i htext
    obtain ⟨result, hrun, rfl⟩ := Option.map_eq_some_iff.mp h
    rw [if_pos htext, WhileLoop.after_of_run hrun]
    rfl
  · rename_i hbinary
    rw [if_neg hbinary]
    split at h
    · rename_i hmagic
      obtain ⟨result, hrun, rfl⟩ := Option.map_eq_some_iff.mp h
      rw [if_pos hmagic, WhileLoop.after_of_run hrun]
      rfl
    · rename_i hmagic
      cases h
      rw [if_neg hmagic]

/-! ### Pairs that are collected -/

/-- Of the pairs handed over so far, the first ones are in the database and the others are
    pending. -/
def Batch.Holds (db : Store) (b : Batch) (handed : List KVPair) : Prop :=
  ∃ front, handed = front ++ b.kvPairs ∧ b.db = putBatch db front

/-- What a loop leaves that has handed over these pairs: the first ones of them are written,
    and all of them if it returns normally. -/
def Leaves (db : Store) (handed : List KVPair) (result : Store × Except Fault Unit) : Prop :=
  ∃ front, front <+: handed ∧ result.1 = putBatch db front ∧ (result.2 = .ok () → front = handed)

namespace Batch

variable {writes : Nat → WriteReply} {db : Store} {b b' : Batch} {handed : List KVPair}
variable {p : KVPair} {f : Fault}

theorem Holds.concat (h : b.Holds db handed) (p : KVPair) :
    Holds db { b with kvPairs := b.kvPairs ++ [p] } (handed ++ [p]) := by
  obtain ⟨front, rfl, hdb⟩ := h
  exact ⟨front, List.append_assoc _ _ _, hdb⟩

/-- A write takes place or it does not, whatever it reports. -/
theorem Holds.write {result : Except Fault Unit} (h : b.Holds db handed)
    (hwrite : b.write writes = (b', result)) : Leaves db handed (b'.db, result) := by
  obtain ⟨front, rfl, hdb⟩ := h
  have hall : putBatch b.db b.kvPairs = putBatch db (front ++ b.kvPairs) := by
    rw [hdb]
    exact (putAll_append front b.kvPairs).symm
  unfold Batch.write DiskStorage.write at hwrite
  cases hreply : writes b.written with
  | ok =>
    simp only [hreply] at hwrite
    cases hwrite
    exact ⟨_, List.prefix_rfl, hall, fun _ => rfl⟩
  | failed status applied =>
    simp only [hreply] at hwrite
    cases hwrite
    cases applied with
    | true => exact ⟨_, List.prefix_rfl, hall, fun _ => rfl⟩
    | false => exact ⟨front, List.prefix_append _ _, hdb, fun hok => by cases hok⟩

theorem Holds.push_ok (h : b.Holds db handed) (hpush : b.push writes p = (b', .ok ())) :
    b'.Holds db (handed ++ [p]) := by
  unfold push at hpush
  dsimp only at hpush
  split at hpush
  · split at hpush
    · cases hpush
    · rename_i b'' hwrite
      cases hpush
      obtain ⟨front, -, hdb, hall⟩ := (h.concat p).write hwrite
      refine ⟨handed ++ [p], (List.append_nil _).symm, ?_⟩
      rw [← hall rfl]
      exact hdb
  · cases hpush
    exact h.concat p

theorem Holds.push_error (h : b.Holds db handed) (hpush : b.push writes p = (b', .error f)) :
    Leaves db (handed ++ [p]) (b'.db, .error f) := by
  unfold push at hpush
  dsimp only at hpush
  split at hpush
  · split at hpush
    · rename_i hwrite
      cases hpush
      exact (h.concat p).write hwrite
    · cases hpush
  · cases hpush

theorem Holds.finish (h : b.Holds db handed) : Leaves db handed (b.finish writes) := by
  unfold Batch.finish
  split
  · split
    rename_i b' result hwrite
    exact h.write hwrite
  · rename_i hempty
    have hnil : b.kvPairs = [] := List.length_eq_zero_iff.mp (not_not.mp hempty)
    obtain ⟨front, rfl, hdb⟩ := h
    rw [hnil, List.append_nil]
    exact ⟨front, List.prefix_rfl, hdb, fun _ => rfl⟩

end Batch

/-! ### Loops that collect -/

section Collects

variable {l : Type} {batch : l → Batch}
variable {body : (Nat → WriteReply) → l → l ⊕ (Store × Except Fault Unit)}

/-- The rounds from here on hand over these pairs one by one, and then finish the batch. -/
inductive Collects (batch : l → Batch)
    (body : (Nat → WriteReply) → l → l ⊕ (Store × Except Fault Unit)) : l → List KVPair → Prop
  | done {s : l} (hbody : ∀ writes, body writes s = .inr ((batch s).finish writes)) :
    Collects batch body s []
  | round {s : l} {p : KVPair} {ps : List KVPair} (next : Batch → l)
    (hbatch : ∀ b, batch (next b) = b)
    (hbody : ∀ writes, body writes s =
      match (batch s).push writes p with
      | (b, .error f) => .inr (b.db, .error f)
      | (b, .ok ()) => .inl (next b))
    (hrest : ∀ b, Collects batch body (next b) ps) : Collects batch body s (p :: ps)

/-- Wherever such a loop is stopped, the first ones of its pairs are written. -/
theorem Collects.after {s : l} {ps handed : List KVPair} {db : Store}
    (h : Collects batch body s ps) (hs : (batch s).Holds db handed) (writes : Nat → WriteReply)
    (rounds : Nat) :
    ∃ front, front <+: handed ++ ps ∧
      storeOf batch (WhileLoop.after (body writes) rounds s) = putBatch db front ∧
      ∀ store, WhileLoop.after (body writes) rounds s = .inr (store, .ok ()) →
        front = handed ++ ps := by
  have hstart : ∀ {s : l} {ps handed : List KVPair}, (batch s).Holds db handed →
      ∃ front, front <+: handed ++ ps ∧
        storeOf batch (WhileLoop.after (body writes) 0 s) = putBatch db front ∧
        ∀ store, WhileLoop.after (body writes) 0 s = .inr (store, .ok ()) →
          front = handed ++ ps := by
    intro s ps handed hs
    obtain ⟨front, rfl, hdb⟩ := hs
    refine ⟨front, ?_, hdb, fun store hafter => by cases hafter⟩
    rw [List.append_assoc]
    exact List.prefix_append _ _
  induction h generalizing handed rounds with
  | done hbody =>
    cases rounds with
    | zero => exact hstart hs
    | succ rounds =>
      obtain ⟨front, hfront, hdb, hall⟩ :
          Leaves db handed ((batch _).finish writes) := hs.finish
      rw [List.append_nil]
      refine ⟨front, hfront, ?_, ?_⟩
      · rw [WhileLoop.after, hbody writes]
        exact hdb
      · intro store hafter
        rw [WhileLoop.after, hbody writes] at hafter
        exact hall (congrArg Prod.snd (Sum.inr.inj hafter))
  | @round s p ps next hbatch hbody hrest ih =>
    cases rounds with
    | zero => exact hstart hs
    | succ rounds =>
      rw [WhileLoop.after, hbody writes]
      rcases hpush : (batch s).push writes p with ⟨b, f | ⟨⟩⟩
      · obtain ⟨front, hfront, hdb, -⟩ := hs.push_error hpush
        refine ⟨front, ?_, hdb, fun store hafter => by cases hafter⟩
        refine hfront.trans ?_
        rw [List.append_cons handed p ps]
        exact List.prefix_append _ _
      · have hnext : (batch (next b)).Holds db (handed ++ [p]) := by
          rw [hbatch]
          exact hs.push_ok hpush
        rw [List.append_cons handed p ps]
        exact ih b hnext rounds

end Collects

/-! ### Files of records -/

/-- The entries as they are handed over. -/
def pairsOf (entries : List (NumID × Bytes)) : List KVPair := entries.map fun p => ⟨p.1, p.2⟩

/-- A round of the text loop does not depend on its batch before it pushes its pair. -/
theorem collects_text (entries : List (NumID × Bytes))
    (hvalues : ∀ p ∈ entries, 9 ∉ p.2 ∧ 10 ∉ p.2) (l : TextLoop)
    (hstream : l.stream = ofBytes (records false entries)) :
    Collects TextLoop.batch textBody l (pairsOf entries) := by
  induction entries generalizing l with
  | nil =>
    apply Collects.done
    intro writes
    have hgetline : l.stream.getline l.line = ([], ⟨[], .eof, true, true, false⟩) := by
      rw [hstream]
      rfl
    rw [textBody_eq, hgetline]
    rfl
  | cons p entries ih =>
    rw [List.forall_mem_cons] at hvalues
    obtain ⟨l', hbody, hstream', hview⟩ :=
      textBody_record (l := ⟨l.stream, l.line, { db := ∅ }⟩) hvalues.1.1 hvalues.1.2 hstream
    rcases hgetline : l.stream.getline l.line with ⟨line, stream⟩
    rw [textBody_eq] at hbody
    simp only [hgetline] at hbody
    split at hbody
    · cases hbody
    · rename_i hfails
      split at hbody
      · cases hbody
      · rename_i q hparse
        split at hbody
        · cases hbody
        · rename_i b hpush
          cases hbody
          rw [Batch.push_eq_ok hpush] at hview
          obtain ⟨hkey, hvalue⟩ := insert_empty_inj hview
          refine Collects.round (fun b => ⟨stream, line, b⟩) (fun _ => rfl) ?_
            fun b => ih hvalues.2 _ hstream'
          have hpair : (fun p : NumID × Bytes => (⟨p.1, p.2⟩ : KVPair)) p = q := by
            dsimp only
            rw [← hkey, ← hvalue]
          intro writes
          rw [textBody_eq, hpair]
          rcases hpush : l.batch.push writes q with ⟨b, f | _⟩ <;>
            simp only [hgetline, if_neg hfails, hparse, hpush]

/-- The round of the binary loop, apart from its batch and from the writes. -/
theorem binaryBody_eq (env : RestoreEnv) {l : BinaryLoop} (heof : l.stream.eofbit = false) :
    ∃ (p : KVPair) (next : Batch → BinaryLoop),
      (∀ b, (next b).batch = b ∧ ∀ b', (next b).stream = (next b').stream ∧
        (next b).leftover env = (next b').leftover env) ∧
      ∀ (writes : Nat → WriteReply) (batch : Batch),
        binaryBody { env with writes := writes } { l with batch := batch } =
          match batch.push writes p with
          | (b, .error f) => .inr (b.db, .error f)
          | (b, .ok ()) => .inl (next b) := by
  simp only [binaryBody, heof, Bool.false_eq_true, if_false]
  exact ⟨_, fun b => ⟨_, _, _, _, _, b⟩, fun b => ⟨rfl, fun _ => ⟨rfl, rfl⟩⟩, fun _ _ => rfl⟩

/-- What a round does on one batch with writes that succeed says what it collects on any. -/
theorem binaryBody_collects_of (env : RestoreEnv) {l l' : BinaryLoop} {p : KVPair}
    (heof : l.stream.eofbit = false)
    (hbody : binaryBody { env with writes := fun _ => .ok } { l with batch := { db := ∅ } } =
      .inl l')
    (hview : l'.batch.view = (∅ : Store).insert p.key p.value) :
    ∃ next : Batch → BinaryLoop,
      (∀ b, (next b).batch = b ∧ (next b).stream = l'.stream ∧
        (next b).leftover env = l'.leftover env) ∧
      ∀ writes, binaryBody { env with writes := writes } l =
        match l.batch.push writes p with
        | (b, .error f) => .inr (b.db, .error f)
        | (b, .ok ()) => .inl (next b) := by
  obtain ⟨q, next, hnext, hround⟩ := binaryBody_eq env heof
  obtain ⟨b, hpush⟩ := Batch.push_ok { db := ∅ } q
  rw [hround, hpush] at hbody
  cases hbody
  rw [(hnext b).1, Batch.push_eq_ok hpush] at hview
  obtain ⟨hkey, hvalue⟩ := insert_empty_inj hview
  obtain rfl : q = p := by
    cases q
    cases p
    cases hkey
    cases hvalue
    rfl
  exact ⟨next, fun b' => ⟨(hnext b').1, (hnext b').2 b⟩, fun writes => hround writes l.batch⟩

/-- The binary loop collects its records, and once more the last one. -/
theorem collects_binary (env : RestoreEnv) (entries : List (NumID × Bytes))
    (hvalues : ∀ p ∈ entries, p.2.length < 2 ^ 32) (l : BinaryLoop)
    (hstream : l.stream = ofBytes (records true entries)) :
    Collects BinaryLoop.batch (fun writes => binaryBody { env with writes := writes }) l
      (pairsOf entries ++ [(pairsOf entries).getLast?.getD (l.leftover env)]) := by
  have heof : l.stream.eofbit = false := by
    rw [hstream]
    rfl
  induction entries generalizing l with
  | nil =>
    obtain ⟨l', hbody, hend, hview⟩ :=
      @binaryBody_end { env with writes := fun _ => .ok } { l with batch := { db := ∅ } } rfl hstream
    obtain ⟨next, hnext, hround⟩ :=
      binaryBody_collects_of env (p := l.leftover env) heof hbody hview
    refine Collects.round next (fun b => (hnext b).1) hround fun b => Collects.done ?_
    intro writes
    have hdone : (next b).stream.eofbit = true := by
      rw [(hnext b).2.1]
      exact hend
    simp only [binaryBody, hdone, if_true]
  | cons p entries ih =>
    rw [List.forall_mem_cons] at hvalues
    obtain ⟨l', hbody, hstream', hleftover, hview⟩ :=
      @binaryBody_record { env with writes := fun _ => .ok } { l with batch := { db := ∅ } }
        p.1 p.2 _ hvalues.1 rfl hstream
    obtain ⟨next, hnext, hround⟩ := binaryBody_collects_of env (p := ⟨p.1, p.2⟩) heof hbody hview
    refine Collects.round next (fun b => (hnext b).1) hround fun b => ?_
    have hrest := ih hvalues.2 (next b) ((hnext b).2.1.trans hstream') (by
      rw [(hnext b).2.1, hstream']
      rfl)
    have hlast : (next b).leftover env = ⟨p.1, p.2⟩ := (hnext b).2.2.trans hleftover
    rw [hlast] at hrest
    rw [pairsOf, List.map_cons, List.getLast?_cons]
    exact hrest

/-! ### Files of the other format -/

/-- A file without the magic number has no effect as a binary dump. -/
theorem restoreUntil_of_magic_ne (env : RestoreEnv) (rounds : Nat) (db : Store)
    {stream stream' : InputStream} {magicBytes : Bytes}
    (hread : stream.read 4 = (magicBytes, stream'))
    (hne : UInt32.ofNat (LittleEndian.decode
      (overwrite (LittleEndian.encode 4 0) magicBytes)) ≠ kBinaryDumpMagicNumber) :
    restoreUntil env rounds db stream true = db ∧
      ∀ r, restore env rounds (some db) stream true ≠ some (r, .ok ()) := by
  constructor
  · simp only [restoreUntil, Bool.not_true, Bool.false_eq_true, if_false, hread, if_neg hne]
  · intro r
    simp [restore, hread, if_neg hne]

/-- The magic number is no key, so the first line of a binary dump already throws. -/
theorem textBody_of_magic (writes : Nat → WriteReply) (l : TextLoop) (rest : Bytes)
    (hstream : l.stream = ofBytes (dumpHeader true ++ rest)) :
    ∃ e, textBody writes l = .inr (l.batch.db, .error (.exc e)) := by
  have hheader : dumpHeader true ++ rest = 0xce :: 0xfa :: 0xad :: 0xde :: rest := rfl
  obtain ⟨line, stream, hgetline, hopen⟩ : ∃ line stream,
      l.stream.getline l.line = (0xce :: line, stream) ∧ stream.fails = false := by
    rw [hstream, hheader]
    simp only [getline, ofBytes, good, Bool.not_false, Bool.and_self, if_true]
    split
    · exact ⟨_, _, rfl, rfl⟩
    · exact ⟨_, _, rfl, rfl⟩
  have hbad : BadKey (0xce :: line) := rfl
  refine ⟨.badKey (0xce :: line), ?_⟩
  rw [textBody_eq, hgetline]
  simp only [hopen, parseLine_of_not_started (show Started (0xce :: line) = false from rfl),
    if_pos hbad, Bool.false_eq_true, if_false]

/-! ### Any file that is a dump -/

/-- The file holds these entries, in one of the formats and without loss. A binary dump without
    any entry is not among them, for it is read as one. -/
def IsDump (entries : List (NumID × Bytes)) (file : Bytes) : Prop :=
  ∃ binaryDump, file = dumpHeader binaryDump ++ records binaryDump entries ∧
    (∀ p ∈ entries, Carries binaryDump p.2) ∧ (binaryDump = true → entries ≠ [])

/-- These entries of the dump have got into the database, and all of them if the call has
    returned normally. -/
def Imported (entries : List (NumID × Bytes)) (db after : Store) (returned : Prop) : Prop :=
  ∃ front : List KVPair, (∀ p ∈ front, (p.key, p.value) ∈ entries) ∧
    after = putBatch db front ∧ (returned → ∀ p ∈ entries, ⟨p.1, p.2⟩ ∈ front)

theorem imported_nothing {entries : List (NumID × Bytes)} (db : Store) {returned : Prop}
    (h : returned → entries = []) : Imported entries db db returned := by
  refine ⟨[], by simp, rfl, fun hreturned => ?_⟩
  rw [h hreturned]
  simp

variable {entries : List (NumID × Bytes)} {db : Store}

theorem Imported.imp {after : Store} {returned returned' : Prop}
    (h : Imported entries db after returned) (hreturned : returned' → returned) :
    Imported entries db after returned' := by
  obtain ⟨front, hfront, hafter, hall⟩ := h
  exact ⟨front, hfront, hafter, fun h' => hall (hreturned h')⟩

section Within

variable {source after : Store} {returned : Prop}

theorem pairs_of_entries (hentries : ∀ p ∈ entries, source[p.1]? = some p.2)
    {front : List KVPair}
    (hfront : ∀ p ∈ front, (p.key, p.value) ∈ entries) :
    ∀ p ∈ front, source[p.key]? = some p.value :=
  fun p hp => hentries (p.key, p.value) (hfront p hp)

/-- Entries of a database leave a part of it a part of it. -/
theorem Imported.within (h : Imported entries db after returned) (hdb : Extends db source)
    (hentries : ∀ p ∈ entries, source[p.1]? = some p.2) : Extends after source := by
  obtain ⟨front, hfront, rfl, -⟩ := h
  exact hdb.putAll_left (pairs_of_entries hentries hfront)

theorem Imported.grows (h : Imported entries db after returned) (hdb : Extends db source)
    (hentries : ∀ p ∈ entries, source[p.1]? = some p.2) : Extends db after := by
  obtain ⟨front, hfront, rfl, -⟩ := h
  exact hdb.putAll_right (pairs_of_entries hentries hfront)

theorem Imported.complete (h : Imported entries db after returned) (hdb : Extends db source)
    (hentries : ∀ p ∈ entries, source[p.1]? = some p.2) (hreturned : returned) :
    ∀ p ∈ entries, after[p.1]? = some p.2 := by
  obtain ⟨front, hfront, rfl, hall⟩ := h
  intro p hp
  exact hdb.getElem?_putAll (pairs_of_entries hentries hfront)
    (Or.inr ⟨_, hall hreturned p hp, rfl, rfl⟩)

end Within

/-- A loop that collects entries of the dump, and all of them at least once. -/
theorem Collects.imported {l : Type} {batch : l → Batch}
    {body : (Nat → WriteReply) → l → l ⊕ (Store × Except Fault Unit)} {s : l}
    {ps : List KVPair} (h : Collects batch body s ps) (hs : batch s = { db := db })
    (hps : ∀ p ∈ ps, (p.key, p.value) ∈ entries) (hall : ∀ p ∈ entries, ⟨p.1, p.2⟩ ∈ ps)
    (writes : Nat → WriteReply) (rounds : Nat) :
    Imported entries db (storeOf batch (WhileLoop.after (body writes) rounds s))
      (∃ store, WhileLoop.run (body writes) rounds s = some (store, .ok ())) := by
  have hholds : (batch s).Holds db [] := by
    rw [hs]
    exact ⟨[], rfl, rfl⟩
  obtain ⟨front, hfront, hstore, hreturned⟩ := h.after hholds writes rounds
  refine ⟨front, fun p hp => hps p (hfront.subset hp), hstore, ?_⟩
  rintro ⟨store, hrun⟩ p hp
  rw [hreturned store (WhileLoop.after_of_run hrun)]
  exact hall p hp

theorem mem_pairsOf {p : KVPair} : p ∈ pairsOf entries ↔ (p.key, p.value) ∈ entries := by
  rw [pairsOf, List.mem_map]
  constructor
  · rintro ⟨q, hq, rfl⟩
    exact hq
  · intro hp
    exact ⟨_, hp, rfl⟩

theorem imported_text (hvalues : ∀ p ∈ entries, Carries false p.2) (env : RestoreEnv)
    (rounds : Nat) (db : Store) :
    Imported entries db
      (restoreUntil env rounds db (ofBytes (dumpHeader false ++ records false entries)) false)
      (∃ r, restore env rounds (some db) (ofBytes (dumpHeader false ++ records false entries))
        false = some (r, .ok ())) := by
  have hcollects := collects_text entries hvalues
    ⟨ofBytes (dumpHeader false ++ records false entries), [], { db := db }⟩ rfl
  refine (hcollects.imported rfl (fun p hp => mem_pairsOf.mp hp)
    (fun p hp => mem_pairsOf.mpr hp) env.writes rounds).imp ?_
  rintro ⟨r, hrestore⟩
  obtain ⟨⟨store, result⟩, hrun, heq⟩ := Option.map_eq_some_iff.mp hrestore
  cases heq
  exact ⟨store, hrun⟩

theorem imported_binary (hvalues : ∀ p ∈ entries, Carries true p.2) (hne : entries ≠ [])
    (env : RestoreEnv) (rounds : Nat) (db : Store) :
    Imported entries db
      (restoreUntil env rounds db (ofBytes (dumpHeader true ++ records true entries)) true)
      (∃ r, restore env rounds (some db) (ofBytes (dumpHeader true ++ records true entries))
        true = some (r, .ok ())) := by
  have hread : InputStream.read 4 (ofBytes (dumpHeader true ++ records true entries)) =
      (dumpHeader true, ofBytes (records true entries)) := read_append (by simp [dumpHeader])
  have hmagic : UInt32.ofNat (LittleEndian.decode
      (overwrite (LittleEndian.encode 4 0) (dumpHeader true))) = kBinaryDumpMagicNumber := by
    decide
  have hcollects := collects_binary env entries hvalues
    ⟨ofBytes (records true entries), env.key, 0, [], 0, { db := db }⟩ rfl
  -- what is collected at the end of the file is the last entry once more
  have hagain : ∀ p ∈ pairsOf entries ++ [(pairsOf entries).getLast?.getD
      (BinaryLoop.leftover env ⟨ofBytes (records true entries), env.key, 0, [], 0, { db := db }⟩)],
      (p.key, p.value) ∈ entries := by
    intro p hp
    rw [← mem_pairsOf]
    rcases List.mem_append.mp hp with hp | hp
    · exact hp
    · have hpairs : pairsOf entries ≠ [] := by simpa [pairsOf] using hne
      rw [List.getLast?_eq_getLast_of_ne_nil hpairs, Option.getD_some, List.mem_singleton] at hp
      rw [hp]
      exact List.getLast_mem hpairs
  have hall : ∀ p ∈ entries, ⟨p.1, p.2⟩ ∈ pairsOf entries ++ [(pairsOf entries).getLast?.getD
      (BinaryLoop.leftover env ⟨ofBytes (records true entries), env.key, 0, [], 0, { db := db }⟩)] :=
    fun p hp => List.mem_append_left _ (mem_pairsOf.mpr hp)
  have himported := hcollects.imported rfl hagain hall env.writes rounds
  simp only [restoreUntil, restore, Bool.not_true, Bool.false_eq_true, if_false, hread, hmagic,
    if_true]
  refine himported.imp ?_
  rintro ⟨r, hrestore⟩
  obtain ⟨⟨store, result⟩, hrun, heq⟩ := Option.map_eq_some_iff.mp hrestore
  cases heq
  exact ⟨store, hrun⟩

/-- A binary dump without `-b`: the magic number is no key. -/
theorem imported_text_of_binary (env : RestoreEnv) (rounds : Nat) (db : Store) (rest : Bytes) :
    Imported entries db (restoreUntil env rounds db (ofBytes (dumpHeader true ++ rest)) false)
      (∃ r, restore env rounds (some db) (ofBytes (dumpHeader true ++ rest)) false =
        some (r, .ok ())) := by
  obtain ⟨e, hbody⟩ := textBody_of_magic env.writes
    ⟨ofBytes (dumpHeader true ++ rest), [], { db := db }⟩ rest rfl
  cases rounds with
  | zero =>
    refine imported_nothing db ?_
    rintro ⟨r, hrestore⟩
    cases hrestore
  | succ rounds =>
    have huntil : restoreUntil env (rounds + 1) db (ofBytes (dumpHeader true ++ rest)) false =
        db := by
      simp only [restoreUntil, Bool.not_false, if_true, WhileLoop.after, hbody, storeOf]
    rw [huntil]
    refine imported_nothing db ?_
    rintro ⟨r, hrestore⟩
    simp [restore, WhileLoop.run, hbody] at hrestore

/-- A text dump with `-b`: its first byte, if it has one, is not that of the magic number. -/
theorem imported_binary_of_text (env : RestoreEnv) (rounds : Nat) (db : Store) :
    Imported entries db
      (restoreUntil env rounds db (ofBytes (dumpHeader false ++ records false entries)) true)
      (∃ r, restore env rounds (some db) (ofBytes (dumpHeader false ++ records false entries))
        true = some (r, .ok ())) := by
  obtain ⟨huntil, hreturns⟩ : restoreUntil env rounds db
      (ofBytes (dumpHeader false ++ records false entries)) true = db ∧
        ∀ r, restore env rounds (some db)
          (ofBytes (dumpHeader false ++ records false entries)) true ≠ some (r, .ok ()) := by
    cases entries with
    | nil =>
      have hread : InputStream.read 4 (ofBytes []) = ([], ⟨[], .eof, true, true, false⟩) := rfl
      exact restoreUntil_of_magic_ne env rounds db hread (by decide)
    | cons p entries =>
      obtain ⟨b, bs, hprint, hb⟩ := exists_printInt_cons p.1.toInt
      have hfile : dumpHeader false ++ records false (p :: entries) =
          b :: (bs ++ 9 :: p.2 ++ [10] ++ records false entries) := by
        rw [records_cons, dumpEntry, if_neg Bool.false_ne_true, hprint]
        simp [dumpHeader]
      obtain ⟨got, stream, hread⟩ := exists_read_cons b
        (bs ++ 9 :: p.2 ++ [10] ++ records false entries)
      rw [hfile]
      exact restoreUntil_of_magic_ne env rounds db hread (magicNumber_ne hb got)
  rw [huntil]
  refine imported_nothing db ?_
  rintro ⟨r, hrestore⟩
  exact absurd hrestore (hreturns r)

/-- Whatever flag the import is given and whenever it stops, it has brought over entries of the
    dump and nothing else. -/
theorem IsDump.imported {file : Bytes} (h : IsDump entries file) (env : RestoreEnv) (rounds : Nat)
    (db : Store) (binaryDump : Bool) :
    Imported entries db (restoreUntil env rounds db (ofBytes file) binaryDump)
      (∃ r, restore env rounds (some db) (ofBytes file) binaryDump = some (r, .ok ())) := by
  obtain ⟨format, rfl, hvalues, hne⟩ := h
  cases binaryDump with
  | false =>
    cases format with
    | false => exact imported_text hvalues env rounds db
    | true => exact imported_text_of_binary env rounds db _
  | true =>
    cases format with
    | false => exact imported_binary_of_text env rounds db
    | true => exact imported_binary hvalues (hne rfl) env rounds db

end DiskStorage

open DiskStorage

/-! ### The program -/

/-- The backup directory when `numimport` is killed after so many rounds of the loop that it
    restores with, and how the program has ended if it has ended before. -/
def numimportUntil (env : ImportEnv) (rounds : Nat) (args : ImportArgs) (db : Store)
    (file : Option InputStream) : Store × Option Exit :=
  match numimport env rounds args db file with
  | some (db', exit) => (db', some exit)
  | none =>
    match file with
    | some stream => (restoreUntil env.toRestoreEnv rounds db stream args.binaryDump, none)
    | none => (db, none)

theorem restoreExit_eq_success {result : Except Fault Unit} (h : restoreExit result = .success) :
    result = .ok () := by
  unfold restoreExit at h
  split at h <;> first | rfl | cases h

theorem numimportUntil_none (env : ImportEnv) (rounds : Nat) (args : ImportArgs) (db : Store) :
    (numimportUntil env rounds args db none).1 = db := by
  unfold numimportUntil numimport
  split
  · rename_i db' exit hreturns
    split at hreturns
    · cases hreturns
      rfl
    · split at hreturns
      · cases hreturns
        rfl
      · split at hreturns <;> cases hreturns <;> rfl
  · rfl

/-- Whatever an import of a dump runs into, it has brought over entries of the dump and nothing
    else, and all of them if it ends with success. -/
theorem imported_numimportUntil {entries : List (NumID × Bytes)} {file : Bytes}
    (h : IsDump entries file) (env : ImportEnv) (rounds : Nat) (args : ImportArgs) (db : Store) :
    Imported entries db
      (numimportUntil env rounds args db (some (ofBytes file))).1
      ((numimportUntil env rounds args db (some (ofBytes file))).2 = some .success) := by
  have himported := h.imported env.toRestoreEnv rounds db args.binaryDump
  have hfailed : ∀ message, Imported entries db db
      (some (Exit.failure message) = some Exit.success) :=
    fun message => imported_nothing db fun hsuccess => by cases hsuccess
  unfold numimportUntil numimport
  split
  · rename_i db' exit hreturns
    split at hreturns
    · cases hreturns
      exact hfailed _
    · split at hreturns
      · cases hreturns
        exact hfailed _
      · split at hreturns
        · cases hreturns
          exact hfailed _
        · obtain ⟨r, hrestore, heq⟩ := Option.map_eq_some_iff.mp hreturns
          cases heq
          rw [restoreUntil_of_restore hrestore, Option.getD_some]
          refine himported.imp ?_
          intro hsuccess
          refine ⟨r.1, ?_⟩
          rw [hrestore, ← restoreExit_eq_success (Option.some.inj hsuccess)]
  · exact himported.imp fun hsuccess => by cases hsuccess

end Numerator
