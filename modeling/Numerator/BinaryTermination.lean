import Numerator.Restore

/-!
# When the binary loop ends

The loop of the binary format looks at eof alone. A file that ends sets it in
the round that reads beyond the end. A file that breaks off with an I/O error
never does: the stream goes bad, every later read delivers nothing, and the loop
collects its leftover locals forever, unless a write of the collected pairs
fails.
-/

namespace InputStream

variable {s : InputStream}

/-- The stream has not met its end, and will meet eof there. -/
structure Sound (s : InputStream) : Prop where
  ending : s.ending = .eof
  good : s.eofbit = false → s.good = true

theorem Sound.read (h : s.Sound) (n : Nat) :
    (s.read n).2.Sound ∧ ((s.read n).2.eofbit = false →
      s.eofbit = false ∧ (s.read n).2.rest.length + n = s.rest.length) := by
  unfold InputStream.read
  rw [h.ending]
  split
  · rename_i hgood
    split
    · rename_i hn
      refine ⟨⟨rfl, fun _ => hgood⟩, fun heof => ⟨heof, ?_⟩⟩
      simp only [List.length_drop]
      omega
    · exact ⟨⟨rfl, fun heof => by cases heof⟩, fun heof => by cases heof⟩
  · rename_i hgood
    -- only eof has kept the stream from being good
    have heof : s.eofbit = true := by
      by_contra hne
      exact hgood (h.good (by simpa using hne))
    refine ⟨⟨rfl, fun hne => ?_⟩, fun hne => ?_⟩
    · cases heof.symm.trans hne
    · cases heof.symm.trans hne

/-- The stream breaks off with an I/O error and has not been asked to set eof. -/
structure BreaksOff (s : InputStream) : Prop where
  ending : s.ending = .ioError
  eofbit : s.eofbit = false

theorem BreaksOff.read (h : s.BreaksOff) (n : Nat) : (s.read n).2.BreaksOff := by
  unfold InputStream.read
  rw [h.ending]
  split
  · split <;> exact ⟨rfl, h.eofbit⟩
  · exact ⟨rfl, h.eofbit⟩

end InputStream

namespace Numerator

namespace DiskStorage

open Std FiniteMap

/-! ### Writes -/

namespace Batch

variable {writes : Nat → WriteReply} {p : KVPair} {b b' : Batch} {f : Fault}

theorem write_eq_error (h : b.write writes = (b', .error f)) : ∃ e, f = .exc e := by
  unfold write DiskStorage.write at h
  split at h
  rename_i db result hwrite
  split at hwrite
  · cases hwrite
    cases h
  · cases hwrite
    cases h
    exact ⟨_, rfl⟩

theorem push_eq_error (h : b.push writes p = (b', .error f)) : ∃ e, f = .exc e := by
  unfold push at h
  dsimp only at h
  split at h
  · split at h
    · rename_i hwrite
      cases h
      exact write_eq_error hwrite
    · cases h
  · cases h

theorem finish_eq_error {db : Store} (h : b.finish writes = (db, .error f)) :
    ∃ e, f = .exc e := by
  unfold finish at h
  split at h
  · split at h
    rename_i b' result hwrite
    cases h
    exact write_eq_error hwrite
  · cases h

/-- A pair is added to the pending ones, or it was the last one that fitted and all of them
    have been written. -/
theorem push_cases (h : b.push writes p = (b', .ok ())) :
    (b'.written = b.written ∧ b'.kvPairs.length = b.kvPairs.length + 1 ∧
      b'.kvPairs.length < kRestoreBatchSize) ∨
    (b'.written = b.written + 1 ∧ b'.kvPairs = [] ∧ writes b.written = .ok) := by
  unfold push at h
  dsimp only at h
  split at h
  · split at h
    · cases h
    · rename_i b'' hwrite
      cases h
      right
      unfold write DiskStorage.write at hwrite
      rcases hreply : writes b.written with _ | ⟨status, applied⟩
      · simp only [hreply, Prod.mk.injEq, and_true] at hwrite
        subst hwrite
        exact ⟨rfl, rfl, rfl⟩
      · simp [hreply] at hwrite
  · rename_i hsmall
    cases h
    left
    simp only [List.length_append, List.length_singleton] at hsmall ⊢
    exact ⟨trivial, trivial, by omega⟩

end Batch

/-! ### One round -/

variable {env : RestoreEnv} {l l' : BinaryLoop} {db : Store}

/-- The `value_size` of a round. -/
def BinaryLoop.nextSize (l : BinaryLoop) : UInt32 :=
  UInt32.ofNat (LittleEndian.decode (InputStream.overwrite
    (LittleEndian.encode 4 l.valueSize.toNat) ((l.stream.read 8).2.read 4).1))

/-- The three reads of a round take their bytes from the stream, unless they meet its end. -/
theorem sound_reads {s : InputStream} (hs : s.Sound) (n : Nat) :
    (((s.read 8).2.read 4).2.read n).2.Sound ∧
      ((((s.read 8).2.read 4).2.read n).2.eofbit = false →
        (((s.read 8).2.read 4).2.read n).2.rest.length + (12 + n) = s.rest.length) := by
  obtain ⟨h₁, hkey⟩ := hs.read 8
  obtain ⟨h₂, hsize⟩ := h₁.read 4
  obtain ⟨h₃, hvalue⟩ := h₂.read n
  refine ⟨h₃, ?_⟩
  intro hopen
  obtain ⟨heof₂, hlength₃⟩ := hvalue hopen
  obtain ⟨heof₁, hlength₂⟩ := hsize heof₂
  obtain ⟨-, hlength₁⟩ := hkey heof₁
  omega

/-- Whatever the three reads deliver, a round before eof collects one pair. -/
theorem binaryBody_collects (env : RestoreEnv) (heof : l.stream.eofbit = false) :
    ∃ (p : KVPair) (next : Batch → BinaryLoop),
      (∀ b, (next b).batch = b ∧
        (next b).stream = (((l.stream.read 8).2.read 4).2.read l.nextSize.toNat).2) ∧
      binaryBody env l =
        match l.batch.push env.writes p with
        | (b, .error f) => .inr (b.db, .error f)
        | (b, .ok ()) => .inl (next b) := by
  simp only [binaryBody, heof, Bool.false_eq_true, if_false]
  exact ⟨_, fun b => ⟨_, _, _, _, _, b⟩, fun b => ⟨rfl, rfl⟩, rfl⟩

theorem binaryBody_eq_inl (h : binaryBody env l = .inl l') :
    l.stream.eofbit = false ∧ (∃ p, l.batch.push env.writes p = (l'.batch, .ok ())) ∧
      l'.stream = (((l.stream.read 8).2.read 4).2.read l.nextSize.toNat).2 := by
  have heof : l.stream.eofbit = false := by
    by_contra heof
    rw [Bool.not_eq_false] at heof
    simp [binaryBody, heof] at h
  obtain ⟨p, next, hnext, hbody⟩ := binaryBody_collects env heof
  rw [hbody] at h
  split at h
  · cases h
  · rename_i b hpush
    cases h
    refine ⟨heof, ⟨p, ?_⟩, (hnext b).2⟩
    rw [hpush, (hnext b).1]

/-- What ends the loop is the end of the file or an exception. -/
theorem binaryBody_eq_inr {r : Store × Except Fault Unit} (h : binaryBody env l = .inr r) :
    r.2 = .ok () ∨ ∃ e, r.2 = .error (.exc e) := by
  rcases heof : l.stream.eofbit with _ | _
  · obtain ⟨p, next, -, hbody⟩ := binaryBody_collects env heof
    rw [hbody] at h
    split at h
    · rename_i b f hpush
      cases h
      obtain ⟨e, rfl⟩ := Batch.push_eq_error hpush
      exact Or.inr ⟨e, rfl⟩
    · cases h
  · simp only [binaryBody, heof, if_true] at h
    obtain ⟨db, f | ⟨⟩⟩ := r
    · obtain ⟨e, rfl⟩ := Batch.finish_eq_error (Sum.inr.inj h)
      exact Or.inr ⟨e, rfl⟩
    · exact Or.inl rfl

/-! ### Whole loops -/

/-- A file that ends is read to its end: every round before eof takes bytes from it. -/
theorem exists_returns_of_sound (env : RestoreEnv) (hs : l.stream.Sound) :
    ∃ r, WhileLoop.Returns (binaryBody env) l r := by
  refine WhileLoop.exists_returns (I := fun l => l.stream.Sound)
    (fun l => if l.stream.eofbit then 0 else l.stream.rest.length + 1) ?_ hs
  intro l l' hl hbody
  obtain ⟨heof, -, hstream⟩ := binaryBody_eq_inl hbody
  obtain ⟨hsound, hlength⟩ := sound_reads hl l.nextSize.toNat
  rw [← hstream] at hsound hlength
  refine ⟨hsound, ?_⟩
  rw [heof]
  rcases heof' : l'.stream.eofbit with _ | _
  · have hserved := hlength heof'
    simp only [Bool.false_eq_true, if_false]
    omega
  · simp

/-- A write that fails is reached, if nothing else ends the loop before. -/
theorem exists_returns_of_write {k : Nat} (hk : env.writes k ≠ .ok)
    (hwritten : l.batch.written ≤ k) (hpairs : l.batch.kvPairs.length < kRestoreBatchSize) :
    ∃ r, WhileLoop.Returns (binaryBody env) l r := by
  refine WhileLoop.exists_returns
    (I := fun l => l.batch.written ≤ k ∧ l.batch.kvPairs.length < kRestoreBatchSize)
    (fun l => (k - l.batch.written) * kRestoreBatchSize +
      (kRestoreBatchSize - l.batch.kvPairs.length)) ?_ ⟨hwritten, hpairs⟩
  rintro l l' ⟨hle, hlt⟩ hbody
  obtain ⟨-, ⟨p, hpush⟩, -⟩ := binaryBody_eq_inl hbody
  rcases Batch.push_cases hpush with ⟨hwritten', hlength, hlt'⟩ | ⟨hwritten', hnil, hok⟩
  · rw [hwritten', hlength]
    refine ⟨⟨hle, by omega⟩, ?_⟩
    omega
  · have hne : l.batch.written ≠ k := by
      rintro heq
      exact hk (heq ▸ hok)
    have hsplit : k - l.batch.written = k - (l.batch.written + 1) + 1 := by omega
    rw [hwritten', hnil, hsplit, Nat.add_mul, List.length_nil]
    refine ⟨⟨by omega, ?_⟩, ?_⟩
    · simp [kRestoreBatchSize]
    · omega

/-- A stream that breaks off keeps the loop going. -/
theorem not_returns_of_breaksOff (hwrites : ∀ k, env.writes k = .ok) (hs : l.stream.BreaksOff)
    (r : Store × Except Fault Unit) : ¬ WhileLoop.Returns (binaryBody env) l r := by
  refine WhileLoop.not_returns (I := fun l => l.stream.BreaksOff) ?_ hs
  intro l hl
  obtain ⟨p, next, hnext, hbody⟩ := binaryBody_collects env hl.eofbit
  obtain ⟨b, hpush⟩ := l.batch.push_ok p
  rw [show env.writes = fun _ => .ok from funext hwrites] at hbody
  refine ⟨next b, by rw [hbody, hpush], ?_⟩
  rw [(hnext b).2]
  exact ((hl.read 8).read 4).read _

/-! ### `restore` -/

/-- The call comes to an end, normally or by an exception. -/
def Terminates (env : RestoreEnv) (db : Store) (stream : InputStream) (binaryDump : Bool) : Prop :=
  ∃ store result, Restores env (some db) stream binaryDump (some store, result) ∧
    (result = .ok () ∨ ∃ e, result = .error (.exc e))

theorem terminates_binary_iff {rest : Bytes} {ending : Ending} :
    Terminates env db { rest := dumpHeader true ++ rest, ending := ending } true ↔
      ∃ r, WhileLoop.Returns (binaryBody env)
        ⟨{ rest := rest, ending := ending }, env.key, 0, [], 0, { db := db }⟩ r := by
  constructor
  · rintro ⟨store, result, h, -⟩
    obtain ⟨r, hreturns, -⟩ := restores_binary_iff.mp h
    exact ⟨r, hreturns⟩
  · rintro ⟨r, hreturns⟩
    have hend : r.2 = .ok () ∨ ∃ e, r.2 = .error (.exc e) := by
      refine hreturns.post (I := fun _ => True)
        (P := fun r => r.2 = .ok () ∨ ∃ e, r.2 = .error (.exc e)) ?_ ?_ trivial
      · exact fun _ _ _ _ => trivial
      · exact fun _ _ _ hbody => binaryBody_eq_inr hbody
    exact ⟨r.1, r.2, restores_binary_iff.mpr ⟨r, hreturns, rfl⟩, hend⟩

/-- Behind the magic number the binary restore comes to an end exactly when the file does, or
    one of its writes fails. -/
theorem binary_restore_terminates_iff (env : RestoreEnv) (db : Store) (rest : Bytes)
    (ending : Ending) :
    Terminates env db { rest := dumpHeader true ++ rest, ending := ending } true ↔
      ending = .eof ∨ ∃ k, env.writes k ≠ .ok := by
  rw [terminates_binary_iff]
  constructor
  · rintro ⟨r, hreturns⟩
    by_contra hnever
    push Not at hnever
    have hbreaks : ending = .ioError := by
      cases ending with
      | eof => exact absurd rfl hnever.1
      | ioError => rfl
    exact not_returns_of_breaksOff hnever.2 ⟨hbreaks, rfl⟩ r hreturns
  · rintro (rfl | ⟨k, hk⟩)
    · exact exists_returns_of_sound env ⟨rfl, fun _ => rfl⟩
    · exact exists_returns_of_write hk (Nat.zero_le k) (by simp [kRestoreBatchSize])

/-- The read error comes behind the key of the first record. -/
theorem not_terminates_ioError :
    ¬ Terminates { key := 0, memory := fun _ _ => 0 } ∅
      { rest := dumpHeader true ++ NumID.bytes 1, ending := .ioError } true := by
  rw [terminates_binary_iff]
  rintro ⟨r, hreturns⟩
  exact not_returns_of_breaksOff (fun _ => rfl) ⟨rfl, rfl⟩ r hreturns

end DiskStorage

end Numerator
