import Numerator.BinaryDump

/-!
# The programs around a dump

`main` of `numexport.cpp` and of `numimport.cpp`, behind the reading of their
options. The two programs are handed the same flag for the binary format, but
the first one only passes it on when its output goes to a file.
-/

namespace Numerator

open Std FiniteMap InputStream DiskStorage

/-- How a program ends: with a status and the text before it, or by what nobody catches. -/
inductive Exit where
  | success
  | failure (message : String)
  | aborted (f : Fault)
deriving DecidableEq, Repr

/-- `DiskStorage::init` with the status of a database that does not open. -/
def initFailed (status : String) : String := "LevelDB initialization failed: " ++ status

/-! ### `numexport` -/

structure ExportArgs where
  dataDir : String
  outputFile : String := ""
  binaryDump : Bool := false
deriving DecidableEq, Repr

/-- What `numexport` finds: whether the database and the file open, and the iterator. -/
structure ExportEnv where
  it : Iterator
  dbOpen : Option String := none
  fileFails : Bool := false

/-- What it leaves behind: the file that it was to write, and its output. -/
structure Exported where
  file : Option Bytes := none
  stdout : Bytes := []
  exit : Exit
deriving DecidableEq, Repr

namespace Exported

/-- The bytes of the export, wherever they went. -/
def bytes (e : Exported) : Bytes := e.file.getD e.stdout

end Exported

/-- Nothing catches an exception of `dump`. -/
def dumpExit : Except Fault Unit → Exit
  | .ok () => .success
  | .error f => .aborted f

def numexport (env : ExportEnv) (args : ExportArgs) : Exported :=
  if args.dataDir = "" then { exit := .failure "Error: mandatory parameter -d is not specified" }
  else
    match env.dbOpen with
    | some status => { exit := .failure (initFailed status) }
    | none =>
      if args.outputFile ≠ "" then
        if env.fileFails then
          { exit := .failure
              ("Error: couldn't open file \"" ++ args.outputFile ++ "\" for writing") }
        else
          match dump env.it [] args.binaryDump with
          | (stream, result) => { file := some stream, exit := dumpExit result }
      else
        -- `dump(std::cout)`, without the flag
        match dump env.it [] false with
        | (stream, result) => { stdout := stream, exit := dumpExit result }

/-! ### `numimport` -/

structure ImportArgs where
  dataDir : String
  dataFile : String
  binaryDump : Bool := false
deriving DecidableEq, Repr

structure ImportEnv extends RestoreEnv where
  dbOpen : Option String := none

/-- The exceptions of `restore` are caught and printed. -/
def restoreExit : Except Fault Unit → Exit
  | .ok () => .success
  | .error (.exc e) => .failure e.text
  | .error f => .aborted f

/-- The database afterwards, and how the program ends. The file is `none` when it does not
    open. -/
def numimport (env : ImportEnv) (fuel : Nat) (args : ImportArgs) (db : Store)
    (file : Option InputStream) : Option (Store × Exit) :=
  if args.dataDir = "" then
    some (db, .failure "Error: mandatory parameter -d is not specified")
  else if args.dataFile = "" then
    some (db, .failure "Error: mandatory parameter -i is not specified")
  else
    match env.dbOpen with
    | some status => some (db, .failure (initFailed status))
    | none =>
      match file with
      | none => some (db, .failure ("Couldn't open data stream \"" ++ args.dataFile ++ "\""))
      | some stream =>
        (restore env.toRestoreEnv fuel (some db) stream args.binaryDump).map fun r =>
          (r.1.getD db, restoreExit r.2)

def Imports (env : ImportEnv) (args : ImportArgs) (db : Store) (file : Option InputStream)
    (r : Store × Exit) : Prop :=
  ∃ fuel, numimport env fuel args db file = some r

/-- With an open file and database the program is a restore. -/
theorem imports_iff {env : ImportEnv} {args : ImportArgs} (hdir : args.dataDir ≠ "")
    (hfile : args.dataFile ≠ "") (hopen : env.dbOpen = none) (db : Store) (stream : InputStream)
    (r : Store × Exit) :
    Imports env args db (some stream) r ↔
      ∃ store result,
        Restores env.toRestoreEnv (some db) stream args.binaryDump (store, result) ∧
          r = (store.getD db, restoreExit result) := by
  simp only [Imports, numimport, hdir, hfile, hopen, if_false, Option.map_eq_some_iff]
  constructor
  · rintro ⟨fuel, ⟨store, result⟩, hrestore, rfl⟩
    exact ⟨store, result, ⟨fuel, hrestore⟩, rfl⟩
  · rintro ⟨store, result, ⟨fuel, hrestore⟩, rfl⟩
    exact ⟨fuel, (store, result), hrestore, rfl⟩

/-! ### A text dump is no binary dump -/

/-- The first byte alone tells that the magic number is missing. -/
theorem magicNumber_ne {b : UInt8} (hb : b ≠ 0xce) (got : Bytes) :
    UInt32.ofNat (LittleEndian.decode (overwrite (LittleEndian.encode 4 0) (b :: got))) ≠
      kBinaryDumpMagicNumber := by
  intro heq
  have hlow := congrArg (fun n : UInt32 => n.toNat % 256) heq
  simp only [overwrite, List.cons_append, UInt32.toNat_ofNat'] at hlow
  rw [Nat.mod_mod_of_dvd _ (by norm_num), LittleEndian.decode_cons_mod] at hlow
  exact hb (UInt8.toNat_inj.mp hlow)

theorem exists_read_cons (b : UInt8) (rest : Bytes) :
    ∃ got stream, (InputStream.ofBytes (b :: rest)).read 4 = (b :: got, stream) := by
  unfold InputStream.read ofBytes good
  split
  · split
    · exact ⟨_, _, rfl⟩
    · exact ⟨_, _, rfl⟩
  · rename_i hgood
    exact absurd rfl hgood

theorem restores_of_first_byte (env : RestoreEnv) (db : Store) {b : UInt8} (hb : b ≠ 0xce)
    (rest : Bytes) :
    ∃ found, Restores env (some db) (.ofBytes (b :: rest)) true
      (some db, .error (.exc (.badMagicNumber found kBinaryDumpMagicNumber.toNat))) := by
  obtain ⟨got, stream, hread⟩ := exists_read_cons b rest
  set magicNumber := UInt32.ofNat (LittleEndian.decode
    (overwrite (LittleEndian.encode 4 0) (b :: got))) with hmagic
  have hne : magicNumber ≠ kBinaryDumpMagicNumber := magicNumber_ne hb got
  refine ⟨magicNumber.toNat, 0, ?_⟩
  simp only [restore, Bool.not_true, Bool.false_eq_true, if_false, hread, ← hmagic, if_neg hne]

theorem exists_printInt_cons (i : Int) :
    ∃ b bs, Decimal.printInt i = b :: bs ∧ b ≠ 0xce := by
  obtain ⟨b, bs, hcons⟩ := List.exists_cons_of_ne_nil (Decimal.printNat_ne_nil i.natAbs)
  have hdigit : Decimal.isDigit b = true :=
    Decimal.isDigit_of_mem_printNat (hcons ▸ List.mem_cons_self)
  unfold Decimal.printInt
  split
  · exact ⟨45, _, rfl, by decide⟩
  · refine ⟨b, bs, hcons, ?_⟩
    rintro rfl
    exact absurd hdigit (by decide)

theorem restores_text_dump (env : RestoreEnv) {db : Store} (hdb : db ≠ ∅) (target : Store) :
    ∃ found, Restores env (some target) (.ofBytes (dump (newIterator db) [] false).1) true
      (some target, .error (.exc (.badMagicNumber found kBinaryDumpMagicNumber.toNat))) := by
  have hlist : db.toList ≠ [] := fun hnil => hdb (ExtTreeMap.toList_eq_nil_iff.mp hnil)
  obtain ⟨⟨id, value⟩, entries, hentries⟩ := List.exists_cons_of_ne_nil hlist
  obtain ⟨b, bs, hprint, hb⟩ := exists_printInt_cons id.toInt
  have hdump : (dump (newIterator db) [] false).1 =
      b :: (bs ++ 9 :: value ++ [10] ++ records false entries) := by
    rw [dump_newIterator, hentries, records_cons, dumpEntry, if_neg Bool.false_ne_true, hprint]
    simp [dumpHeader]
  rw [hdump]
  exact restores_of_first_byte env target hb _

/-! ### Both programs -/

/-- `numexport -b` and then `numimport -b` from what it wrote give the store again in a fresh
    directory. -/
def RoundTrips (db : Store) (outputFile : String) (env : ImportEnv) (source target : String)
    (dataFile : String) : Prop :=
  let exported := numexport { it := newIterator db }
    { dataDir := source, outputFile := outputFile, binaryDump := true }
  exported.exit = .success ∧
    Imports env { dataDir := target, dataFile := dataFile, binaryDump := true } ∅
      (some (.ofBytes exported.bytes)) (db, .success)

theorem numexport_binary (db : Store) {source : String} (hsource : source ≠ "")
    (outputFile : String) :
    let exported := numexport { it := newIterator db }
      { dataDir := source, outputFile := outputFile, binaryDump := true }
    exported.exit = .success ∧
      exported.bytes = (dump (newIterator db) [] (decide (outputFile ≠ ""))).1 := by
  by_cases hout : outputFile = ""
  · simp [numexport, hsource, hout, dump_newIterator, dumpExit, Exported.bytes]
  · simp [numexport, hsource, hout, dump_newIterator, dumpExit, Exported.bytes]

/-- The round trip needs an output file, and values that the size field can count. -/
theorem roundTrips_iff (db : Store) (hdb : db ≠ ∅) (outputFile source target dataFile : String)
    (hsource : source ≠ "") (htarget : target ≠ "") (hfile : dataFile ≠ "") (key : NumID)
    (memory : Nat → Nat → UInt8) :
    RoundTrips db outputFile { key := key, memory := memory } source target dataFile ↔
      outputFile ≠ "" ∧
        ∀ (id : NumID) (v : Bytes), db[id]? = some v → v.length < 2 ^ 32 := by
  obtain ⟨hexit, hbytes⟩ := numexport_binary db hsource outputFile
  unfold RoundTrips
  dsimp only
  rw [hexit, hbytes, imports_iff htarget hfile rfl, ← dumped_eq_self_iff]
  by_cases hout : outputFile = ""
  · -- the output is a text dump, whatever the flag says
    obtain ⟨found, hrestores⟩ := restores_text_dump { key := key, memory := memory } hdb ∅
    rw [decide_eq_false (not_not.mpr hout)]
    constructor
    · rintro ⟨-, store, result, hrestores', heq⟩
      cases hrestores.unique hrestores'
      cases heq
    · rintro ⟨hne, -⟩
      exact absurd hout hne
  · have hrestores := restores_dumped { key := key, memory := memory } rfl hdb
    rw [decide_eq_true hout]
    constructor
    · rintro ⟨-, store, result, hrestores', heq⟩
      cases hrestores.unique hrestores'
      exact ⟨hout, (Prod.mk.inj heq).1.symm⟩
    · rintro ⟨-, hdumped⟩
      rw [hdumped] at hrestores
      exact ⟨rfl, some db, .ok (), hrestores, rfl⟩

/-- An empty value and a negative key, exported to a file. -/
theorem roundTrips_iff_file :
    RoundTrips (((∅ : Store).insert (-1) [9, 10]).insert 1 []) "dump"
      { key := 7, memory := fun _ _ => 0 } "old" "new" "dump" := by
  apply (roundTrips_iff _ _ "dump" "old" "new" "dump" (by decide) (by decide) (by decide) 7 _).mpr
  · refine ⟨by decide, ?_⟩
    exact forall_mem_toList_iff.mp (by decide)
  · simp

/-- Exported to the standard output, the only entry makes a text dump, which `numimport -b`
    rejects. -/
theorem not_roundTrips_stdout :
    numexport { it := newIterator ((∅ : Store).insert 1 [97]) }
        { dataDir := "old", binaryDump := true } =
          { stdout := [49, 9, 97, 10], exit := .success } ∧
      Imports { key := 7, memory := fun _ _ => 0 }
        { dataDir := "new", dataFile := "dump", binaryDump := true } ∅
        (some (.ofBytes [49, 9, 97, 10]))
        (∅, .failure (Exc.text (.badMagicNumber 174131505 3735943886))) ∧
      ¬ RoundTrips ((∅ : Store).insert 1 [97]) "" { key := 7, memory := fun _ _ => 0 } "old" "new"
        "dump" := by
  have hexport : numexport { it := newIterator ((∅ : Store).insert 1 [97]) }
      { dataDir := "old", binaryDump := true } =
        { stdout := [49, 9, 97, 10], exit := .success } := by
    decide
  have hrestores : Restores { key := 7, memory := fun _ _ => 0 } (some ∅)
      (.ofBytes [49, 9, 97, 10]) true
      (some ∅, .error (.exc (.badMagicNumber 174131505 3735943886))) :=
    ⟨0, by decide⟩
  refine ⟨hexport, ?_, ?_⟩
  · exact (imports_iff (by decide) (by decide) rfl _ _ _).mpr ⟨_, _, hrestores, rfl⟩
  · rintro ⟨-, himports⟩
    rw [hexport, imports_iff (by decide) (by decide) rfl] at himports
    obtain ⟨store, result, hrestores', heq⟩ := himports
    cases hrestores.unique hrestores'
    cases (Prod.mk.inj heq).2

end Numerator
