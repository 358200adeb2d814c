import Numerator.CliRoundTrip
import Numerator.GenPy

/-!
# The client in Python

`do_query` and the loop of `main` in `client.py`. The counter of the lines begins
at zero, white space is taken off a line, and a number of any size is collected:
only the batch that it belongs to cannot be packed. Apart from that the client
does what `numeratorcli` does with a counter that begins at zero.
-/

namespace Numerator

open Thrift InputStream

namespace ClientPy

/-! ### Lines and numbers -/

def isSpace (b : UInt8) : Bool := b = 32 || (9 ≤ b && b ≤ 13)

def strip (bs : Bytes) : Bytes := (bs.dropWhile isSpace).rdropWhile isSpace

/-- The lines of a file, with their newlines. -/
def readLines : Bytes → List Bytes
  | [] => []
  | b :: bs =>
    if b = 10 then [10] :: readLines bs
    else
      match readLines bs with
      | [] => [[b]]
      | line :: lines => (b :: line) :: lines

/-- `int` of a stripped string. White space may stand behind the sign. -/
def toInt : Bytes → Option Int
  | 45 :: bs => (Decimal.parseNat (bs.dropWhile isSpace)).map fun n : Nat => -(n : Int)
  | 43 :: bs => (Decimal.parseNat (bs.dropWhile isSpace)).map fun n : Nat => (n : Int)
  | bs => (Decimal.parseNat bs).map fun n : Nat => (n : Int)

/-! ### `do_query` -/

structure Args where
  type : String
  batchSize : Int
  verbose : Bool := false
  silent : Bool := false

/-- The exceptions that end `main`. -/
inductive Fault where
  | invalidLiteral
  | notPacked
  | notServed (what : String)
  | indexError
  | typeError
deriving DecidableEq

structure Session where
  requests : List GenPy.Query := []
  output : List Bytes := []
deriving DecidableEq

/-- `data` is `query_data`. -/
def printIds (verbose : Bool) (data : List Bytes) : Nat → List Int → List Bytes × Except Fault Unit
  | _, [] => ([], .ok ())
  | idx, num :: ids =>
    match (if verbose then (data[idx]?).map (· ++ [9]) else some []) with
    | none => ([], .error .indexError)
    | some front =>
      match printIds verbose data (idx + 1) ids with
      | (output, result) => ((front ++ Decimal.printInt num) :: output, result)

/-- `result.strings[idx]`. -/
def stringAt (strings : Option (List Bytes)) (idx : Nat) : Except Fault Bytes :=
  match strings with
  | none => .error .typeError
  | some strings =>
    match strings[idx]? with
    | none => .error .indexError
    | some s => .ok s

def printStrings (verbose : Bool) (failures : List Int) (strings : Option (List Bytes)) :
    Nat → List Int → List Bytes × Except Fault Unit
  | _, [] => ([], .ok ())
  | idx, id :: ids =>
    match (if (idx : Int) ∈ failures then .ok NumeratorCli.notFound else stringAt strings idx) with
    | .error f => ([], .error f)
    | .ok s =>
      match printStrings verbose failures strings (idx + 1) ids with
      | (output, result) =>
        ((if verbose then Decimal.printInt id ++ 9 :: s else s) :: output, result)

/-- What is printed of a result. -/
def printResult (args : Args) (strings : List Bytes) (ids : List Int) (result : GenPy.Query) :
    List Bytes × Except Fault Unit :=
  if args.type = "s2i" then
    if args.silent then ([], .ok ())
    else
      match result.ids with
      | none => ([], .error .typeError)
      | some nums => printIds args.verbose strings 0 nums
  else
    match result.failures with
    | none => ([], .error .typeError)
    | some failures => printStrings args.verbose failures result.strings 0 ids

/-- The request for `query_data`, which holds strings or numbers. -/
def request (args : Args) (strings : List Bytes) (ids : List Int) : GenPy.Query :=
  if args.type = "s2i" then { op := some 1, strings := some strings }
  else { op := some 2, ids := some ids }

variable {σ : Type} (P : Protocol σ)

def doQuery (args : Args) (client : List GenPy.Query → GenPy.Query → Except String GenPy.Query)
    (session : Session) (strings : List Bytes) (ids : List Int) : Session × Except Fault Unit :=
  match (request args strings ids).write P with
  | none => (session, .error .notPacked)
  | some _ =>
    let sent : Session :=
      { session with requests := session.requests ++ [request args strings ids] }
    match client session.requests (request args strings ids) with
    | .error what => (sent, .error (.notServed what))
    | .ok result =>
      match printResult args strings ids result with
      | (output, result) => ({ sent with output := sent.output ++ output }, result)

/-! ### `main` -/

structure Loop where
  cnt : Nat := 0
  strings : List Bytes := []
  ids : List Int := []
  session : Session := {}

def push (args : Args) (line : Bytes) (strings : List Bytes) (ids : List Int) :
    Option (List Bytes × List Int) :=
  if args.type = "i2s" then (toInt line).map fun i => (strings, ids ++ [i])
  else some (strings ++ [line], ids)

def mainLoop (args : Args) (client : List GenPy.Query → GenPy.Query → Except String GenPy.Query) :
    List Bytes → Loop → Session × Except Fault Unit
  | [], l =>
    if l.strings ≠ [] ∨ l.ids ≠ [] then doQuery P args client l.session l.strings l.ids
    else (l.session, .ok ())
  | line :: lines, l =>
    match push args (strip line) l.strings l.ids with
    | none => (l.session, .error .invalidLiteral)
    | some (strings, ids) =>
      if (l.cnt + 1 : Int) ≥ args.batchSize then
        match doQuery P args client l.session strings ids with
        | (session, .error f) => (session, .error f)
        | (session, .ok ()) => mainLoop args client lines { session := session }
      else mainLoop args client lines ⟨l.cnt + 1, strings, ids, l.session⟩

/-- `main` on a file with this content, once it is connected. -/
def run (args : Args) (client : List GenPy.Query → GenPy.Query → Except String GenPy.Query)
    (content : Bytes) : Session × Except Fault Unit :=
  mainLoop P args client (readLines content) {}

variable {P}

/-! ### The same lines -/

theorem strip_append_newline (line : Bytes) : strip (line ++ [10]) = strip line := by
  unfold strip
  rw [List.dropWhile_append]
  split
  · rename_i hempty
    rw [List.isEmpty_iff] at hempty
    rw [hempty]
    rfl
  · exact List.rdropWhile_concat_pos _ _ _ rfl

theorem mem_of_mem_strip {line : Bytes} {b : UInt8} (h : b ∈ strip line) : b ∈ line :=
  (List.dropWhile_sublist isSpace).subset ((List.rdropWhile_prefix isSpace _).subset h)

theorem length_strip_le (line : Bytes) : (strip line).length ≤ line.length :=
  (List.rdropWhile_prefix isSpace _).length_le.trans (List.dropWhile_sublist isSpace).length_le

theorem readLines_append_newline {line : Bytes} (h : (10 : UInt8) ∉ line) (rest : Bytes) :
    readLines (line ++ 10 :: rest) = (line ++ [10]) :: readLines rest := by
  induction line with
  | nil => rfl
  | cons b line ih =>
    rw [List.mem_cons, not_or] at h
    rw [List.cons_append, readLines, if_neg (Ne.symm h.1), ih h.2]
    rfl

theorem readLines_of_not_mem {line : Bytes} (h : (10 : UInt8) ∉ line) :
    readLines line = if line = [] then [] else [line] := by
  induction line with
  | nil => rfl
  | cons b line ih =>
    rw [List.mem_cons, not_or] at h
    rw [readLines, if_neg (Ne.symm h.1), ih h.2]
    cases line <;> rfl

/-- Up to the white space both clients read the same lines. -/
theorem map_strip_readLines (content : Bytes) :
    (readLines content).map strip = (fileLines content).map strip := by
  induction hn : content.length using Nat.strong_induction_on generalizing content with
  | _ n ih =>
    by_cases hmem : (10 : UInt8) ∈ content
    · obtain ⟨front, rest, rfl, hfront⟩ := List.eq_append_cons_of_mem hmem
      have hlt : rest.length < n := by
        rw [← hn, List.length_append, List.length_cons]
        omega
      rw [readLines_append_newline hfront, fileLines_append_newline hfront, List.map_cons,
        List.map_cons, strip_append_newline, ih rest.length hlt rest rfl]
    · rw [readLines_of_not_mem hmem, fileLines_of_not_mem hmem]

theorem newline_not_mem_fileLines {content line : Bytes} (h : line ∈ fileLines content) :
    (10 : UInt8) ∉ line := by
  have hsplit : line ∈ content.splitOn 10 := by
    unfold fileLines at h
    split at h
    · exact (List.dropLast_sublist _).subset h
    · exact h
  intro hmem
  exact (mem_of_mem_splitOn hsplit hmem).2 rfl

/-! ### The same numbers -/

/-- No white space between the sign and the digits. -/
def Tight (line : Bytes) : Prop :=
  line.head? = some 43 ∨ line.head? = some 45 → ∀ b ∈ line.tail.head?, isSpace b = false

instance : DecidablePred Tight := fun line =>
  inferInstanceAs (Decidable (_ ∨ _ → ∀ b ∈ line.tail.head?, isSpace b = false))

theorem toInt_of_tight {line : Bytes} (h : Tight line) : toInt line = Decimal.parseInt line := by
  have hdrop : ∀ sign bs, line = sign :: bs → sign = 43 ∨ sign = 45 →
      bs.dropWhile isSpace = bs := by
    rintro sign bs rfl hsign
    cases bs with
    | nil => rfl
    | cons b rest =>
      have hspace : isSpace b = false := by
        apply h
        · simpa using hsign
        · rfl
      exact List.dropWhile_cons_of_neg (by simp [hspace])
  unfold toInt
  split
  · rename_i bs
    change _ = (Decimal.parseNat bs).map fun n : Nat => -(n : Int)
    rw [hdrop 45 bs rfl (Or.inr rfl)]
  · rename_i bs
    change _ = (Decimal.parseNat bs).map fun n : Nat => (n : Int)
    rw [hdrop 43 bs rfl (Or.inl rfl)]
  · rename_i hminus hplus
    rw [Decimal.parseInt]
    · exact hminus
    · exact hplus

/-- What `int` makes of a line that `lexical_cast` takes as well. -/
def InRange (i : Int) : Prop := -2 ^ 63 ≤ i ∧ i < 2 ^ 63

theorem lexicalCast_eq_some {line : Bytes} {i : Int} (h : Decimal.parseInt line = some i)
    (hrange : InRange i) : DiskStorage.lexicalCast line = some (Int64.ofInt i) := by
  rw [DiskStorage.lexicalCast_eq_some_iff, ← Decimal.parseInt_eq_some_iff,
    Int64.toInt_ofInt_of_le hrange.1 hrange.2]
  exact h

theorem lexicalCast_eq_none {line : Bytes}
    (h : ∀ i, Decimal.parseInt line = some i → ¬ InRange i) :
    DiskStorage.lexicalCast line = none := by
  rw [Option.eq_none_iff_forall_ne_some]
  intro id hid
  have hparse := Decimal.parseInt_eq_some_iff.mpr (DiskStorage.lexicalCast_eq_some_iff.mp hid)
  exact h id.toInt hparse ⟨id.le_toInt, id.toInt_lt⟩

/-! ### Packing -/

section Packing

theorem isSome_writeList {α : Type} {type : TType} {write : α → Option (List σ)} {xs : List α} :
    (GenPy.writeList P type write xs).isSome ↔
      xs.length < 2 ^ 31 ∧ ∀ x ∈ xs, (write x).isSome := by
  have hmap : (xs.mapM write).isSome ↔ ∀ x ∈ xs, (write x).isSome := by
    induction xs with
    | nil => simp
    | cons x xs ih =>
      rw [List.mapM_cons, List.forall_mem_cons, ← ih]
      cases write x <;> cases xs.mapM write <;> simp
  unfold GenPy.writeList
  split
  · rename_i hlength
    rw [Option.isSome_map, hmap]
    exact (and_iff_right hlength).symm
  · rename_i hlength
    exact iff_of_false Bool.false_ne_true fun h => hlength h.1

theorem isSome_write_strings {strings : List Bytes} (hlength : strings.length < 2 ^ 31)
    (hstrings : ∀ s ∈ strings, s.length < 2 ^ 31) :
    (GenPy.Query.write P { op := some 1, strings := some strings }).isSome := by
  have hlist : (GenPy.writeList P .string (GenPy.writeString P) strings).isSome := by
    rw [isSome_writeList]
    refine ⟨hlength, ?_⟩
    intro s hs
    unfold GenPy.writeString
    rw [if_pos (hstrings s hs)]
    rfl
  obtain ⟨content, hcontent⟩ := Option.isSome_iff_exists.mp hlist
  have hop : GenPy.writeI32 P 1 = some (P.writeI32 (.ofInt 1)) := if_pos (by decide)
  simp [GenPy.Query.write, GenPy.Query.fields, GenPy.optionalField, hcontent, hop]

theorem isSome_write_ids {ids : List Int} (hlength : ids.length < 2 ^ 31) :
    (GenPy.Query.write P { op := some 2, ids := some ids }).isSome ↔ ∀ i ∈ ids, InRange i := by
  have hlist : (GenPy.writeList P .i64 (GenPy.writeI64 P) ids).isSome ↔ ∀ i ∈ ids, InRange i := by
    rw [isSome_writeList, and_iff_right hlength]
    refine forall₂_congr fun i _ => ?_
    unfold GenPy.writeI64 InRange
    split <;> simp_all
  have hop : GenPy.writeI32 P 2 = some (P.writeI32 (.ofInt 2)) := if_pos (by decide)
  rw [← hlist]
  cases hcontent : GenPy.writeList P .i64 (GenPy.writeI64 P) ids <;>
    simp [GenPy.Query.write, GenPy.Query.fields, GenPy.optionalField, hcontent, hop]

end Packing

/-! ### The same queries -/

/-- The service that the C++ client asks, as the Python client sees it. -/
def service (client : List Query → Query → Except String Query) (sent : List GenPy.Query)
    (request : GenPy.Query) : Except String GenPy.Query :=
  (client (sent.map GenPy.Query.cpp) request.cpp).map GenPy.ofQuery

/-- The same requests and the same output, and both clients go on or both have failed. -/
structure Same (r : Session × Except Fault Unit)
    (r' : NumeratorCli.Session × Except NumeratorCli.RunFault Unit) : Prop where
  requests : r.1.requests.map GenPy.Query.cpp = r'.1.requests
  output : r.1.output = r'.1.output
  succeeds : r.2 = .ok () ↔ r'.2 = .ok ()

theorem Same.both {r : Session × Except Fault Unit}
    {r' : NumeratorCli.Session × Except NumeratorCli.RunFault Unit} (h : Same r r') :
    (∃ session session', r = (session, .ok ()) ∧ r' = (session', .ok ())) ∨
      ∃ session session' f f', r = (session, .error f) ∧ r' = (session', .error f') := by
  obtain ⟨session, f | _⟩ := r
  · obtain ⟨session', f' | _⟩ := r'
    · exact Or.inr ⟨session, session', f, f', rfl, rfl⟩
    · exact absurd (h.succeeds.mpr rfl) (by simp)
  · obtain ⟨session', f' | _⟩ := r'
    · exact absurd (h.succeeds.mp rfl) (by simp)
    · exact Or.inl ⟨session, session', rfl, rfl⟩

theorem printIds_plain (data : List Bytes) (idx : Nat) (ids : List Int) :
    printIds false data idx ids = (ids.map Decimal.printInt, .ok ()) := by
  induction ids generalizing idx with
  | nil => rfl
  | cons num ids ih =>
    simp only [printIds, ih, Bool.false_eq_true, if_false]
    rfl

theorem printStrings_plain (failures : List Int) (strings : List Bytes) (idx : Nat)
    (ids : List Int) (hlength : strings.length = idx + ids.length) :
    printStrings false failures (some strings) idx ids =
      ((strings.drop idx).mapIdx fun j v =>
        if ((idx + j : Nat) : Int) ∈ failures then NumeratorCli.notFound else v, .ok ()) := by
  induction ids generalizing idx with
  | nil =>
    rw [List.drop_eq_nil_of_le (by simp [hlength])]
    rfl
  | cons id ids ih =>
    rw [List.length_cons] at hlength
    have hlt : idx < strings.length := by omega
    have hshift : ∀ j : Nat, idx + 1 + j = idx + (j + 1) := by
      intro j
      omega
    rw [printStrings, ih (idx + 1) (by omega), List.drop_eq_getElem_cons hlt, List.mapIdx_cons]
    simp only [stringAt, List.getElem?_eq_getElem hlt, hshift, Nat.add_zero]
    by_cases hmem : (idx : Int) ∈ failures
    · simp [hmem]
    · simp [hmem]

section Queries

variable {client : List Query → Query → Except String Query}

/-- Strings that can be packed are sent, and their ids are printed. -/
theorem doQuery_strings {session : Session} {session' : NumeratorCli.Session}
    (hrequests : session.requests.map GenPy.Query.cpp = session'.requests)
    (houtput : session.output = session'.output) {strings : List Bytes}
    (hcount : strings.length < 2 ^ 31) (hstrings : ∀ s ∈ strings, s.length < 2 ^ 31)
    (batchSize : Int) :
    Same (doQuery P { type := "s2i", batchSize := batchSize } (service client) session strings [])
      (NumeratorCli.doQuery client session' .STR2ID [] strings) := by
  obtain ⟨content, hcontent⟩ := Option.isSome_iff_exists.mp
    (isSome_write_strings (P := P) hcount hstrings)
  have hcpp : (GenPy.Query.cpp { op := some 1, strings := some strings }) =
      { op := .STR2ID, strings := strings, ids := [] } := rfl
  have hrequest : request ⟨"s2i", batchSize, false, false⟩ strings [] =
      { op := some 1, strings := some strings } := rfl
  have hsent : List.map GenPy.Query.cpp
      (session.requests ++ [{ op := some 1, strings := some strings }]) =
      session'.requests ++ [{ op := .STR2ID, strings := strings, ids := [] }] := by
    rw [List.map_append, hrequests, List.map_singleton, hcpp]
  unfold doQuery NumeratorCli.doQuery
  rw [hrequest, hcontent]
  simp only [service, hrequests, hcpp]
  rcases hresult : client session'.requests { op := .STR2ID, strings := strings, ids := [] } with
    what | result
  · simp only [Except.map]
    exact ⟨hsent, houtput, by simp⟩
  · simp only [Except.map, printResult, GenPy.ofQuery, if_true, Bool.false_eq_true, if_false,
      printIds_plain, List.map_map]
    refine ⟨hsent, ?_, by simp⟩
    rw [houtput]
    rfl

/-- Ids that can be packed are sent, and the strings are printed that are found. -/
theorem doQuery_ids (hclient : ∀ sent request result, client sent request = .ok result →
      request.op = .ID2STR → result.strings.length = request.ids.length)
    {session : Session} {session' : NumeratorCli.Session}
    (hrequests : session.requests.map GenPy.Query.cpp = session'.requests)
    (houtput : session.output = session'.output) {ids : List Int}
    (hcount : ids.length < 2 ^ 31) (hids : ∀ i ∈ ids, InRange i) (batchSize : Int) :
    Same (doQuery P { type := "i2s", batchSize := batchSize } (service client) session [] ids)
      (NumeratorCli.doQuery client session' .ID2STR (ids.map .ofInt) []) := by
  obtain ⟨content, hcontent⟩ := Option.isSome_iff_exists.mp
    ((isSome_write_ids (P := P) hcount).mpr hids)
  have hcpp : (GenPy.Query.cpp { op := some 2, ids := some ids }) =
      { op := .ID2STR, strings := [], ids := ids.map .ofInt } := rfl
  have hrequest : request ⟨"i2s", batchSize, false, false⟩ [] ids =
      { op := some 2, ids := some ids } := rfl
  have hsent : List.map GenPy.Query.cpp
      (session.requests ++ [{ op := some 2, ids := some ids }]) =
      session'.requests ++ [{ op := .ID2STR, strings := [], ids := ids.map .ofInt }] := by
    rw [List.map_append, hrequests, List.map_singleton, hcpp]
  unfold doQuery NumeratorCli.doQuery
  rw [hrequest, hcontent]
  simp only [service, hrequests, hcpp]
  rcases hresult : client session'.requests
      { op := .ID2STR, strings := [], ids := ids.map .ofInt } with what | result
  · simp only [Except.map]
    exact ⟨hsent, houtput, by simp⟩
  · have hlength : result.strings.length = ids.length := by
      rw [hclient _ _ _ hresult rfl, List.length_map]
    have hread := readStrings_eq result.failures 0 result.strings (by simp; omega)
    have hprint := printStrings_plain result.failures result.strings 0 ids (by omega)
    have htype : ("i2s" : String) ≠ "s2i" := by decide
    have hne : Operation.ID2STR ≠ .STR2ID := by decide
    simp only [Except.map, printResult, GenPy.ofQuery, if_neg htype, if_neg hne, hread, hprint]
    refine ⟨hsent, ?_, by simp⟩
    rw [houtput, List.drop_zero]
    refine congrArg (session'.output ++ ·) (List.mapIdx_eq_iff.mpr ?_)
    intro j
    rw [List.getElem?_map, List.getElem?_mapIdx, Option.map_map]
    refine congrArg (Option.map · _) (funext fun v => ?_)
    rw [Function.comp_apply, Nat.zero_add, Int32.toInt_zero, Int.zero_add]
    split <;> rfl

variable (P) in
/-- A query that can be packed has the same effect. -/
theorem doQuery_same (hclient : ∀ sent request result, client sent request = .ok result →
      request.op = .ID2STR → result.strings.length = request.ids.length)
    {type : String} (htype : type = "s2i" ∨ type = "i2s") (batchSize : Int) {session : Session}
    {session' : NumeratorCli.Session}
    (hrequests : session.requests.map GenPy.Query.cpp = session'.requests)
    (houtput : session.output = session'.output) {strings : List Bytes} {ids : List Int}
    (hkind : if type = "s2i" then ids = [] else strings = [])
    (hcount : strings.length + ids.length < 2 ^ 31) (hstrings : ∀ s ∈ strings, s.length < 2 ^ 31)
    (hids : ∀ i ∈ ids, InRange i) :
    Same (doQuery P { type := type, batchSize := batchSize } (service client) session strings ids)
      (NumeratorCli.doQuery client session' (NumeratorCli.operation type) (ids.map .ofInt)
        strings) := by
  rcases htype with rfl | rfl
  · rw [if_pos rfl] at hkind
    subst hkind
    exact doQuery_strings hrequests houtput (by simpa using hcount) hstrings batchSize
  · rw [if_neg (by decide)] at hkind
    subst hkind
    exact doQuery_ids hclient hrequests houtput (by simpa using hcount) hids batchSize

end Queries

/-! ### The same runs -/

/-- A number that does not fit in an id has been or is collected, so its batch is not sent. -/
theorem mainLoop_doomed (args : Args) (htype : args.type = "i2s")
    (client : List GenPy.Query → GenPy.Query → Except String GenPy.Query) (lines : List Bytes)
    (l : Loop)
    (hdoomed : ∃ i, ¬ InRange i ∧
      (i ∈ l.ids ∨ lines.head?.bind (fun line => toInt (strip line)) = some i))
    (hcount : l.ids.length + lines.length < 2 ^ 31) :
    (mainLoop P args client lines l).1 = l.session ∧
      (mainLoop P args client lines l).2 ≠ .ok () := by
  have hne : args.type ≠ "s2i" := by
    rw [htype]
    decide
  have hquery : ∀ (strings : List Bytes) (ids : List Int), (∃ i ∈ ids, ¬ InRange i) →
      ids.length < 2 ^ 31 →
      doQuery P args client l.session strings ids = (l.session, .error .notPacked) := by
    intro strings ids hids hlength
    have hnone : (GenPy.Query.write P { op := some 2, ids := some ids }) = none := by
      rw [← Option.not_isSome_iff_eq_none, isSome_write_ids hlength]
      push Not
      exact hids
    unfold doQuery request
    rw [if_neg hne, hnone]
  induction lines generalizing l with
  | nil =>
    obtain ⟨i, hrange, hi | hhead⟩ := hdoomed
    swap
    · cases hhead
    have hnil : l.strings ≠ [] ∨ l.ids ≠ [] := Or.inr (List.ne_nil_of_mem hi)
    rw [mainLoop, if_pos hnil, hquery _ _ ⟨i, hi, hrange⟩ (by simpa using hcount)]
    exact ⟨rfl, by simp⟩
  | cons line lines ih =>
    rw [List.length_cons] at hcount
    rcases hint : toInt (strip line) with _ | i
    · simp only [mainLoop, push, if_pos htype, hint, Option.map_none]
      exact ⟨trivial, by simp⟩
    · have hdoomed' : ∃ j ∈ l.ids ++ [i], ¬ InRange j := by
        obtain ⟨j, hrange, hj | hhead⟩ := hdoomed
        · exact ⟨j, List.mem_append_left _ hj, hrange⟩
        · rw [List.head?_cons, Option.bind_some, hint, Option.some.injEq] at hhead
          exact ⟨i, by simp, hhead ▸ hrange⟩
      have hlength : (l.ids ++ [i]).length + lines.length < 2 ^ 31 := by
        rw [List.length_append, List.length_singleton]
        omega
      simp only [mainLoop, push, if_pos htype, hint, Option.map_some]
      split
      · rw [hquery _ _ hdoomed' (by omega)]
        exact ⟨rfl, by simp⟩
      · obtain ⟨j, hj, hrange⟩ := hdoomed'
        exact ih ⟨l.cnt + 1, l.strings, l.ids ++ [i], l.session⟩ ⟨j, hrange, Or.inl hj⟩ hlength
          hquery

section Runs

variable {client : List Query → Query → Except String Query} {type : String} {batchSize : UInt64}

/-- Both clients have the same lines before them, have collected the same and done the same. -/
structure Related (type : String) (batchSize : UInt64) (l : NumeratorCli.RunLoop) (p : Loop)
    (lines : List Bytes) : Prop where
  stream : l.stream.HasLines (lines.map strip)
  cnt : l.cnt.toNat = p.cnt
  bound : p.cnt = 0 ∨ p.cnt < batchSize.toNat
  strings : l.strings = p.strings
  ids : l.ids = p.ids.map .ofInt
  kind : if type = "s2i" then p.ids = [] else p.strings = []
  count : p.strings.length + p.ids.length = p.cnt
  short : p.cnt + lines.length < 2 ^ 31
  shortStrings : ∀ s ∈ p.strings, s.length < 2 ^ 31
  shortLines : ∀ line ∈ lines, (strip line).length < 2 ^ 31
  range : ∀ i ∈ p.ids, InRange i
  tight : type = "i2s" → ∀ line ∈ lines, Tight (strip line)
  requests : p.session.requests.map GenPy.Query.cpp = l.session.requests
  output : p.session.output = l.session.output

/-- `numeratorcli` ends as `client.py` does. -/
def Agrees (client : List Query → Query → Except String Query) (type : String) (batchSize : UInt64)
    (l : NumeratorCli.RunLoop) (r : Session × Except Fault Unit) : Prop :=
  ∃ r',
    WhileLoop.Returns (NumeratorCli.runBody client (NumeratorCli.operation type) batchSize) l r' ∧
      Same r r'

/-- Where `lexical_cast` throws, the other client has sent nothing more when it fails. -/
theorem agrees_of_rejected {line : Bytes} {lines : List Bytes} {l : NumeratorCli.RunLoop} {p : Loop}
    (h : Related "i2s" batchSize l p (line :: lines))
    (hcast : DiskStorage.lexicalCast (strip line) = none) {r : Session × Except Fault Unit}
    (hsession : r.1 = p.session) (hfailed : r.2 ≠ .ok ()) : Agrees client "i2s" batchSize l r := by
  have hlines := h.stream
  rw [List.map_cons] at hlines
  obtain ⟨stream, hgetline, hfails, -⟩ := hlines.getline_cons l.line
  have hop : NumeratorCli.operation "i2s" = .ID2STR := rfl
  refine ⟨(l.session, .error .badLexicalCast), WhileLoop.returns_of_done ?_, ?_⟩
  · simp only [NumeratorCli.runBody, hgetline, hfails, Bool.false_eq_true, if_false,
      NumeratorCli.push, hop, hcast, Option.map_none]
  · refine ⟨?_, ?_, iff_of_false hfailed (by simp)⟩
    · rw [hsession]
      exact h.requests
    · rw [hsession]
      exact h.output

variable (hclient : ∀ sent request result, client sent request = .ok result →
  request.op = .ID2STR → result.strings.length = request.ids.length)

include hclient

theorem mainLoop_nil (htype : type = "s2i" ∨ type = "i2s") {l : NumeratorCli.RunLoop} {p : Loop}
    (h : Related type batchSize l p []) :
    Agrees client type batchSize l
      (mainLoop P { type := type, batchSize := batchSize.toNat } (service client) [] p) := by
  have hfails : (l.stream.getline l.line).2.fails = true := h.stream.getline_nil l.line
  have hshort := h.short
  have hcount := h.count
  rw [mainLoop]
  by_cases hcnt : l.cnt > 0
  · have hpos : 0 < p.cnt := h.cnt ▸ UInt64.lt_iff_toNat_lt.mp hcnt
    have hdata : p.strings ≠ [] ∨ p.ids ≠ [] := by
      by_contra hnil
      push Not at hnil
      rw [hnil.1, hnil.2] at hcount
      simp at hcount
      omega
    refine ⟨NumeratorCli.doQuery client l.session (NumeratorCli.operation type) l.ids l.strings,
      WhileLoop.returns_of_done ?_, ?_⟩
    · simp only [NumeratorCli.runBody, hfails, if_true, if_pos hcnt]
    · rw [if_pos hdata, h.ids, h.strings]
      rw [List.length_nil] at hshort
      exact doQuery_same P hclient htype _ h.requests h.output h.kind (by omega) h.shortStrings
        h.range
  · have hzero : p.cnt = 0 := by
      rw [← h.cnt]
      by_contra hne
      exact hcnt (UInt64.lt_iff_toNat_lt.mpr (Nat.pos_of_ne_zero hne))
    have hdata : ¬ (p.strings ≠ [] ∨ p.ids ≠ []) := by
      push Not
      exact ⟨List.eq_nil_of_length_eq_zero (by omega), List.eq_nil_of_length_eq_zero (by omega)⟩
    refine ⟨(l.session, .ok ()), WhileLoop.returns_of_done ?_, ?_⟩
    · simp only [NumeratorCli.runBody, hfails, if_true, if_neg hcnt]
    · rw [if_neg hdata]
      exact ⟨h.requests, h.output, by simp⟩

/-- A line that both have collected. -/
theorem mainLoop_pushed (htype : type = "s2i" ∨ type = "i2s") {line : Bytes} {lines : List Bytes}
    (ih : ∀ l p, Related type batchSize l p lines → Agrees client type batchSize l
      (mainLoop P { type := type, batchSize := batchSize.toNat } (service client) lines p))
    {l : NumeratorCli.RunLoop} {p : Loop} (h : Related type batchSize l p (line :: lines))
    (strings : List Bytes) (ids : List Int)
    (hpush : NumeratorCli.push (NumeratorCli.operation type) (strip line) l.ids l.strings =
      some (ids.map .ofInt, strings))
    (hpush' : push { type := type, batchSize := batchSize.toNat } (strip line) p.strings p.ids =
      some (strings, ids))
    (hkind : if type = "s2i" then ids = [] else strings = [])
    (hcount : strings.length + ids.length = p.cnt + 1)
    (hstrings : ∀ s ∈ strings, s.length < 2 ^ 31) (hrange : ∀ i ∈ ids, InRange i) :
    Agrees client type batchSize l
      (mainLoop P { type := type, batchSize := batchSize.toNat } (service client) (line :: lines)
        p) := by
  have hlines := h.stream
  have hshort := h.short
  rw [List.map_cons] at hlines
  rw [List.length_cons] at hshort
  obtain ⟨stream, hgetline, hfails, hstream⟩ := hlines.getline_cons l.line
  have hlimit := batchSize.toNat_lt
  have hcnt : (l.cnt + 1).toNat = p.cnt + 1 := by
    rw [NumeratorCli.toNat_increment, h.cnt, Nat.mod_eq_of_lt]
    rcases h.bound with hzero | hlt <;> omega
  have hshortLines := (List.forall_mem_cons.mp h.shortLines).2
  have htight : type = "i2s" → ∀ line ∈ lines, Tight (strip line) :=
    fun heq => (List.forall_mem_cons.mp (h.tight heq)).2
  simp only [mainLoop, hpush']
  by_cases hfull : l.cnt + 1 ≥ batchSize
  · have hfull' : (p.cnt + 1 : Int) ≥ batchSize.toNat := by
      have hle := UInt64.le_iff_toNat_le.mp hfull
      rw [hcnt] at hle
      omega
    have hsame := doQuery_same P hclient htype batchSize.toNat h.requests h.output hkind (by omega)
      hstrings hrange
    rw [if_pos hfull']
    rcases hsame.both with ⟨session, session', hquery, hquery'⟩ |
      ⟨session, session', f, f', hquery, hquery'⟩
    · rw [hquery, hquery'] at hsame
      have hrelated : Related type batchSize ⟨stream, strip line, 0, [], [], session'⟩
          { session := session } lines :=
        { stream := hstream
          cnt := rfl
          bound := Or.inl rfl
          strings := rfl
          ids := rfl
          kind := by split <;> rfl
          count := rfl
          short := by
            change 0 + lines.length < 2 ^ 31
            omega
          shortStrings := by simp
          shortLines := hshortLines
          range := by simp
          tight := htight
          requests := hsame.requests
          output := hsame.output }
      rw [hquery]
      obtain ⟨r, hreturns, hr⟩ := ih _ _ hrelated
      refine ⟨r, hreturns.step ?_, hr⟩
      simp only [NumeratorCli.runBody, hgetline, hfails, Bool.false_eq_true, if_false, hpush,
        if_pos hfull, hquery']
    · rw [hquery, hquery'] at hsame
      rw [hquery]
      refine ⟨(session', .error f'), WhileLoop.returns_of_done ?_, hsame⟩
      simp only [NumeratorCli.runBody, hgetline, hfails, Bool.false_eq_true, if_false, hpush,
        if_pos hfull, hquery']
  · have hfull' : ¬ (p.cnt + 1 : Int) ≥ batchSize.toNat := by
      have hle := mt UInt64.le_iff_toNat_le.mpr hfull
      rw [hcnt] at hle
      omega
    rw [if_neg hfull']
    have hrelated : Related type batchSize
        ⟨stream, strip line, l.cnt + 1, ids.map .ofInt, strings, l.session⟩
        ⟨p.cnt + 1, strings, ids, p.session⟩ lines :=
      { stream := hstream
        cnt := hcnt
        bound := Or.inr (by
          change p.cnt + 1 < batchSize.toNat
          omega)
        strings := rfl
        ids := rfl
        kind := hkind
        count := hcount
        short := by
          change p.cnt + 1 + lines.length < 2 ^ 31
          omega
        shortStrings := hstrings
        shortLines := hshortLines
        range := hrange
        tight := htight
        requests := h.requests
        output := h.output }
    obtain ⟨r, hreturns, hr⟩ := ih _ _ hrelated
    refine ⟨r, hreturns.step ?_, hr⟩
    simp only [NumeratorCli.runBody, hgetline, hfails, Bool.false_eq_true, if_false, hpush,
      if_neg hfull]

theorem mainLoop_string {line : Bytes} {lines : List Bytes}
    (ih : ∀ l p, Related "s2i" batchSize l p lines → Agrees client "s2i" batchSize l
      (mainLoop P { type := "s2i", batchSize := batchSize.toNat } (service client) lines p))
    {l : NumeratorCli.RunLoop} {p : Loop} (h : Related "s2i" batchSize l p (line :: lines)) :
    Agrees client "s2i" batchSize l
      (mainLoop P { type := "s2i", batchSize := batchSize.toNat } (service client) (line :: lines)
        p) := by
  have hcount := h.count
  have hline : (strip line).length < 2 ^ 31 := (List.forall_mem_cons.mp h.shortLines).1
  apply mainLoop_pushed hclient (Or.inl rfl) ih h (p.strings ++ [strip line]) p.ids
  · rw [h.ids, h.strings]
    rfl
  · rfl
  · exact h.kind
  · rw [List.length_append, List.length_singleton]
    omega
  · intro s hs
    rcases List.mem_append.mp hs with hs | hs
    · exact h.shortStrings s hs
    · rw [List.mem_singleton.mp hs]
      exact hline
  · exact h.range

theorem mainLoop_id {line : Bytes} {lines : List Bytes}
    (ih : ∀ l p, Related "i2s" batchSize l p lines → Agrees client "i2s" batchSize l
      (mainLoop P { type := "i2s", batchSize := batchSize.toNat } (service client) lines p))
    {l : NumeratorCli.RunLoop} {p : Loop} (h : Related "i2s" batchSize l p (line :: lines)) :
    Agrees client "i2s" batchSize l
      (mainLoop P { type := "i2s", batchSize := batchSize.toNat } (service client) (line :: lines)
        p) := by
  have hcount := h.count
  have hshort := h.short
  rw [List.length_cons] at hshort
  have htight : Tight (strip line) := (List.forall_mem_cons.mp (h.tight rfl)).1
  have hparse := toInt_of_tight htight
  rcases hint : toInt (strip line) with _ | i
  · -- no number for either of them
    have hcast : DiskStorage.lexicalCast (strip line) = none := by
      apply lexicalCast_eq_none
      intro i hi
      rw [← hparse, hint] at hi
      cases hi
    apply agrees_of_rejected h hcast
    · simp only [mainLoop, push, if_true, hint, Option.map_none]
    · simp [mainLoop, push, hint]
  · rw [hint] at hparse
    by_cases hrange : InRange i
    · have hop : NumeratorCli.operation "i2s" = .ID2STR := rfl
      have hcast := lexicalCast_eq_some hparse.symm hrange
      apply mainLoop_pushed hclient (Or.inr rfl) ih h p.strings (p.ids ++ [i])
      · simp [NumeratorCli.push, hop, hcast, h.ids, h.strings]
      · simp [push, hint]
      · exact h.kind
      · rw [List.length_append, List.length_singleton]
        omega
      · exact h.shortStrings
      · intro j hj
        rcases List.mem_append.mp hj with hj | hj
        · exact h.range j hj
        · rw [List.mem_singleton.mp hj]
          exact hrange
    · -- the batch of the other client cannot be packed
      have hcast : DiskStorage.lexicalCast (strip line) = none := by
        apply lexicalCast_eq_none
        intro j hj
        rw [← hparse] at hj
        cases hj
        exact hrange
      have hlength : p.ids.length + (line :: lines).length < 2 ^ 31 := by
        rw [List.length_cons]
        omega
      obtain ⟨hsession, hfailed⟩ := mainLoop_doomed
        { type := "i2s", batchSize := batchSize.toNat } rfl (service client) (line :: lines) p
        ⟨i, hrange, Or.inr hint⟩ hlength
      exact agrees_of_rejected h hcast hsession hfailed

theorem mainLoop_agrees (htype : type = "s2i" ∨ type = "i2s") (lines : List Bytes)
    (l : NumeratorCli.RunLoop) (p : Loop) (h : Related type batchSize l p lines) :
    Agrees client type batchSize l
      (mainLoop P { type := type, batchSize := batchSize.toNat } (service client) lines p) := by
  induction lines generalizing l p with
  | nil => exact mainLoop_nil hclient htype h
  | cons line lines ih =>
    rcases htype with rfl | rfl
    · exact mainLoop_string hclient ih h
    · exact mainLoop_id hclient ih h

end Runs

/-- On any file `client.py` sends the requests of `numeratorcli` and prints what it prints, if
    that begins to count at zero and reads the stripped lines: also where a line is no id, where
    a number is too large for one, and where the service fails. -/
theorem client_py_agrees (P : Protocol σ) (env : NumeratorCli.RunEnv) (hcnt : env.cnt = 0)
    (hclient : ∀ sent request result, env.client sent request = .ok result →
      request.op = .ID2STR → result.strings.length = request.ids.length)
    (args : NumeratorCli.CmdLineArgs) (hreserves : env.Reserves args.batchSize)
    (htype : args.type = "s2i" ∨ args.type = "i2s")
    (content : Bytes) (hlines : (fileLines content).length < 2 ^ 31)
    (hlengths : ∀ line ∈ fileLines content, line.length < 2 ^ 31)
    (htight : args.type = "i2s" → ∀ line ∈ fileLines content, Tight (strip line)) :
    ∃ session result,
      NumeratorCli.Runs env args
          (some (.ofBytes (NumeratorCli.fileOf ((fileLines content).map strip))))
          (session, result) ∧
        Same (run P { type := args.type, batchSize := args.batchSize.toNat } (service env.client)
          content) (session, result) := by
  have hstrip : ∀ line ∈ readLines content, ∃ line' ∈ fileLines content,
      strip line' = strip line := by
    intro line hline
    have hmem : strip line ∈ (fileLines content).map strip :=
      map_strip_readLines content ▸ List.mem_map_of_mem hline
    exact List.mem_map.mp hmem
  have hlength : (readLines content).length = (fileLines content).length := by
    simpa using congrArg List.length (map_strip_readLines content)
  have hstripped : fileLines (NumeratorCli.fileOf ((fileLines content).map strip)) =
      (readLines content).map strip := by
    rw [map_strip_readLines]
    apply NumeratorCli.fileLines_fileOf
    intro line hline hmem
    obtain ⟨line', hline', rfl⟩ := List.mem_map.mp hline
    exact newline_not_mem_fileLines hline' (mem_of_mem_strip hmem)
  have hrelated : Related args.type args.batchSize
      ⟨.ofBytes (NumeratorCli.fileOf ((fileLines content).map strip)), [], 0, [], [], {}⟩ {}
      (readLines content) :=
    { stream := hstripped ▸ hasLines_ofBytes _
      cnt := rfl
      bound := Or.inl rfl
      strings := rfl
      ids := rfl
      kind := by split <;> rfl
      count := rfl
      short := by
        rw [hlength, Nat.zero_add]
        exact hlines
      shortStrings := by simp
      shortLines := by
        intro line hline
        obtain ⟨line', hline', heq⟩ := hstrip line hline
        rw [← heq]
        exact (length_strip_le line').trans_lt (hlengths line' hline')
      range := by simp
      tight := by
        intro htype line hline
        obtain ⟨line', hline', heq⟩ := hstrip line hline
        rw [← heq]
        exact htight htype line' hline'
      requests := rfl
      output := rfl }
  obtain ⟨⟨session, result⟩, hreturns, hsame⟩ :=
    mainLoop_agrees hclient htype (readLines content) _ _ hrelated
  refine ⟨session, result, (NumeratorCli.runs_of_reserves hreserves _ _).mpr ?_, hsame⟩
  rw [hcnt]
  exact hreturns

/-- Two ids with white space around the second, a number that is too large, and another id. -/
def idFile : Bytes := [49, 10, 32, 50, 13, 10] ++ List.replicate 20 57 ++ [10, 51]

theorem client_py_agrees_idFile :
    let client : List Query → Query → Except String Query := fun _ q =>
      .ok { op := q.op, strings := q.ids.map fun _ => [97], failures := [1] }
    ∃ session result,
      NumeratorCli.Runs { cnt := 0, client := client } ⟨"i2s", "ids", 2⟩
          (some (.ofBytes (NumeratorCli.fileOf ((fileLines idFile).map strip))))
          (session, result) ∧
        Same (run Binary.protocol { type := "i2s", batchSize := 2 } (service client) idFile)
          (session, result) ∧
        session.requests = [{ op := .ID2STR, ids := [1, 2] }] ∧ result ≠ .ok () := by
  intro client
  obtain ⟨session, result, hruns, hsame⟩ := client_py_agrees Binary.protocol
    { cnt := 0, client := client } rfl
    (by
      intro _ request result hresult _
      cases hresult
      simp)
    ⟨"i2s", "ids", 2⟩ ⟨rfl, rfl⟩ (Or.inr rfl) idFile (by decide +kernel) (by decide +kernel)
    (fun _ => by decide +kernel)
  have hrun : run Binary.protocol { type := "i2s", batchSize := 2 } (service client) idFile =
      (⟨[{ op := some 2, ids := some [1, 2] }], [[97], NumeratorCli.notFound]⟩,
        .error .notPacked) := by
    decide +kernel
  refine ⟨session, result, hruns, hsame, ?_, ?_⟩
  · have hrequests := hsame.requests
    change ((run Binary.protocol { type := "i2s", batchSize := 2 } (service client)
      idFile).1.requests.map GenPy.Query.cpp) = session.requests at hrequests
    rw [hrun] at hrequests
    rw [← hrequests]
    decide
  · have hsucceeds := hsame.succeeds
    change (run Binary.protocol { type := "i2s", batchSize := 2 } (service client)
      idFile).2 = .ok () ↔ result = .ok () at hsucceeds
    rw [hrun] at hsucceeds
    intro hok
    cases hsucceeds.mpr hok

end ClientPy

end Numerator
