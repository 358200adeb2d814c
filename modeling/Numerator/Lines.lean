import Numerator.InputStream

/-!
# The lines of a file

What `std::getline` delivers one after the other until it fails. A newline at
the end of the file ends its last line and does not begin another one.
-/

namespace InputStream

def fileLines (content : Bytes) : List Bytes :=
  if (content.splitOn 10).getLast? = some [] then (content.splitOn 10).dropLast
  else content.splitOn 10

theorem fileLines_append_newline {line : Bytes} (h : (10 : UInt8) ∉ line) (rest : Bytes) :
    fileLines (line ++ 10 :: rest) = line :: fileLines rest := by
  obtain ⟨piece, pieces, hpieces⟩ := List.exists_cons_of_ne_nil (List.splitOn_ne_nil 10 rest)
  unfold fileLines
  rw [List.splitOn_append_cons_self_of_not_mem h, hpieces, List.getLast?_cons_cons,
    List.dropLast_cons_cons]
  split <;> rfl

theorem fileLines_of_not_mem {line : Bytes} (h : (10 : UInt8) ∉ line) :
    fileLines line = if line = [] then [] else [line] := by
  unfold fileLines
  rw [List.splitOn_eq_singleton h]
  simp

/-- The stream of a file on which these lines are still to be read. Behind a last line
    without a newline it has met the end already. -/
def HasLines (s : InputStream) (lines : List Bytes) : Prop :=
  (∃ content, s = ofBytes content ∧ fileLines content = lines) ∨
    (s = { rest := [], eofbit := true } ∧ lines = [])

theorem hasLines_ofBytes (content : Bytes) : (ofBytes content).HasLines (fileLines content) :=
  Or.inl ⟨content, rfl, rfl⟩

/-- The last line of a file without a newline is taken with the end of the file. -/
theorem getline_of_not_mem {line old : Bytes} (h : (10 : UInt8) ∉ line) :
    (ofBytes line).getline old =
      (line, { rest := [], eofbit := true, failbit := line.isEmpty }) := by
  have hdrop : line.dropWhile (· ≠ 10) = [] := by
    rw [List.dropWhile_eq_nil_iff]
    exact forall_ne_of_not_mem h
  simp only [ofBytes, getline, good, Bool.not_false, Bool.and_self, if_true, hdrop]

variable {s : InputStream} {line : Bytes} {lines : List Bytes}

theorem HasLines.getline_nil (h : s.HasLines []) (old : Bytes) :
    (s.getline old).2.fails = true := by
  rcases h with ⟨content, rfl, hcontent⟩ | ⟨rfl, -⟩
  · by_cases hmem : (10 : UInt8) ∈ content
    · obtain ⟨front, rest, rfl, hfront⟩ := List.eq_append_cons_of_mem hmem
      rw [fileLines_append_newline hfront] at hcontent
      cases hcontent
    · rw [fileLines_of_not_mem hmem] at hcontent
      split at hcontent
      · rename_i hnil
        rw [getline_of_not_mem hmem, hnil]
        rfl
      · cases hcontent
  · rfl

theorem HasLines.getline_cons (h : s.HasLines (line :: lines)) (old : Bytes) :
    ∃ s', s.getline old = (line, s') ∧ s'.fails = false ∧ s'.HasLines lines := by
  rcases h with ⟨content, rfl, hcontent⟩ | ⟨-, hnil⟩
  · by_cases hmem : (10 : UInt8) ∈ content
    · obtain ⟨front, rest, rfl, hfront⟩ := List.eq_append_cons_of_mem hmem
      rw [fileLines_append_newline hfront] at hcontent
      cases hcontent
      exact ⟨ofBytes rest, getline_append hfront, rfl, hasLines_ofBytes rest⟩
    · rw [fileLines_of_not_mem hmem] at hcontent
      split at hcontent
      · cases hcontent
      · rename_i hne
        cases hcontent
        refine ⟨{ rest := [], eofbit := true }, ?_, rfl, Or.inr ⟨rfl, rfl⟩⟩
        rw [getline_of_not_mem hmem, List.isEmpty_eq_false_iff.mpr hne]
  · cases hnil

end InputStream
