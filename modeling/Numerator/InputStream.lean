import Numerator.ByteString

/-!
# Input streams

`std::istream` as far as unformatted input goes: the bytes that are still to
come, how the file ends, and the three state bits. A stream that is not good
reads nothing. A read that meets the end sets eof and fail; one that meets an
I/O error sets bad alone.
-/

/-- What stands after the last byte. -/
inductive Ending where
  | eof
  | ioError
deriving DecidableEq, Repr

structure InputStream where
  rest : Bytes
  ending : Ending := .eof
  eofbit : Bool := false
  failbit : Bool := false
  badbit : Bool := false
deriving DecidableEq, Repr

namespace InputStream

/-- A file that has just been opened. -/
def ofBytes (content : Bytes) : InputStream := { rest := content }

def good (s : InputStream) : Bool := !s.eofbit && !s.failbit && !s.badbit

/-- `operator!` -/
def fails (s : InputStream) : Bool := s.failbit || s.badbit

/-- `read` of `n` bytes: the bytes that are delivered, and the stream afterwards. -/
def read (n : Nat) (s : InputStream) : Bytes × InputStream :=
  if s.good then
    if n ≤ s.rest.length then (s.rest.take n, { s with rest := s.rest.drop n })
    else
      match s.ending with
      | .eof => (s.rest, { s with rest := [], eofbit := true, failbit := true })
      | .ioError => (s.rest, { s with rest := [], badbit := true })
  else ([], { s with failbit := true })

/-- `std::getline` into `line`. The newline is taken from the stream and dropped. The end of
    the file also ends a line, but not an empty one. -/
def getline (line : Bytes) (s : InputStream) : Bytes × InputStream :=
  if s.good then
    match s.rest.dropWhile (· ≠ 10) with
    | _newline :: rest => (s.rest.takeWhile (· ≠ 10), { s with rest := rest })
    | [] =>
      match s.ending with
      | .eof => (s.rest, { s with rest := [], eofbit := true, failbit := s.rest.isEmpty })
      | .ioError => (s.rest, { s with rest := [], badbit := true })
  else (line, { s with failbit := true })

/-- What a read of `got` leaves in memory that held `old`. -/
def overwrite (old got : Bytes) : Bytes := got ++ old.drop got.length

@[simp] theorem overwrite_nil (old : Bytes) : overwrite old [] = old := rfl

theorem overwrite_of_length_le {old got : Bytes} (h : old.length ≤ got.length) :
    overwrite old got = got := by
  rw [overwrite, List.drop_eq_nil_of_le h, List.append_nil]

theorem read_append {n : Nat} {got rest : Bytes} {ending : Ending} (h : got.length = n) :
    read n { rest := got ++ rest, ending := ending } =
      (got, { rest := rest, ending := ending }) := by
  subst h
  simp [read, good]

theorem read_of_not_good {n : Nat} {s : InputStream} (h : s.good = false) :
    s.read n = ([], { s with failbit := true }) := by
  simp [read, h]

theorem getline_append {line got rest : Bytes} (h : (10 : UInt8) ∉ got) :
    getline line (ofBytes (got ++ 10 :: rest)) = (got, ofBytes rest) := by
  have hgot := forall_ne_of_not_mem h
  have hdrop : (got ++ 10 :: rest).dropWhile (· ≠ 10) = 10 :: rest := by
    rw [List.dropWhile_append_of_pos hgot]
    rfl
  have htake : (got ++ 10 :: rest).takeWhile (· ≠ 10) = got := by
    rw [List.takeWhile_append_of_pos hgot]
    simp
  simp only [ofBytes, getline, good, Bool.not_false, Bool.and_self, if_true, hdrop, htake]

theorem not_mem_getline {line : Bytes} {s : InputStream} (hline : (10 : UInt8) ∉ line) :
    (10 : UInt8) ∉ (s.getline line).1 := by
  unfold getline
  split
  · split
    · intro hmem
      simpa using List.mem_takeWhile_imp hmem
    · rename_i hdrop
      rw [List.dropWhile_eq_nil_iff] at hdrop
      have hrest : (10 : UInt8) ∉ s.rest := fun hmem => by simpa using hdrop 10 hmem
      split <;> exact hrest
  · exact hline

end InputStream
