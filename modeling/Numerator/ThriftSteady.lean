import Numerator.ThriftBinary

/-!
# Streams that come in pieces

A stream may be cut off anywhere, and more of it may follow. A steady reader
decides by what it takes: more symbols behind that change nothing, an error in
the symbols stays one, and with a part of what it takes it comes to the end of
the stream and to no value. Steady readers compose, and so do the loops over
lists and over the fields of structs.
-/

namespace Thrift

variable {σ α β : Type}

structure Steady (read : Reader σ α) : Prop where
  more : ∀ {s rest : List σ} {a : α}, read s = .ok (a, rest) →
    ∀ t, read (s ++ t) = .ok (a, rest ++ t)
  bad : ∀ {s : List σ} {e : ReadError}, read s = .error e → e ≠ .endOfFile →
    ∀ t, read (s ++ t) = .error e
  taken : ∀ {s rest : List σ} {a : α}, read s = .ok (a, rest) →
    ∃ taken, s = taken ++ rest ∧ read taken = .ok (a, [])

theorem steady_pure (a : α) : Steady (pure a : Reader σ α) where
  more := by
    rintro s rest b ⟨⟩ t
    rfl
  bad := by rintro s e ⟨⟩
  taken := by
    rintro s rest b ⟨⟩
    exact ⟨[], rfl, rfl⟩

theorem steady_throw (e : ReadError) : Steady (throw e : Reader σ α) where
  more := by rintro s rest a ⟨⟩
  bad := by
    rintro s e' ⟨⟩ - t
    rfl
  taken := by rintro s rest a ⟨⟩

/-- How a sequence of two readers ends. -/
theorem bind_eq (read : Reader σ α) (next : α → Reader σ β) (s : List σ) :
    (read >>= next) s =
      match read s with
      | .error e => .error e
      | .ok (a, rest) => next a rest := by
  change (read s >>= fun p => next p.1 p.2) = _
  rcases read s with e | ⟨a, rest⟩ <;> rfl

theorem bind_eq_ok {read : Reader σ α} {next : α → Reader σ β} {s rest : List σ} {b : β} :
    (read >>= next) s = .ok (b, rest) ↔
      ∃ a mid, read s = .ok (a, mid) ∧ next a mid = .ok (b, rest) := by
  rw [bind_eq]
  rcases hread : read s with e | ⟨a, mid⟩
  · simp
  · simp only [Except.ok.injEq, Prod.mk.injEq]
    constructor
    · intro h
      exact ⟨a, mid, ⟨rfl, rfl⟩, h⟩
    · rintro ⟨_, _, ⟨rfl, rfl⟩, h⟩
      exact h

theorem Steady.bind {read : Reader σ α} {next : α → Reader σ β} (h : Steady read)
    (hnext : ∀ a, Steady (next a)) : Steady (read >>= next) where
  more := by
    intro s rest b hok t
    obtain ⟨a, mid, hread, hrest⟩ := bind_eq_ok.mp hok
    exact bind_eq_ok.mpr ⟨a, mid ++ t, h.more hread t, (hnext a).more hrest t⟩
  bad := by
    intro s e herror he t
    rw [bind_eq] at herror ⊢
    rcases hread : read s with e' | ⟨a, mid⟩
    · rw [hread] at herror
      cases herror
      rw [h.bad hread he t]
    · rw [hread] at herror
      rw [h.more hread t]
      exact (hnext a).bad herror he t
  taken := by
    intro s rest b hok
    obtain ⟨a, mid, hread, hrest⟩ := bind_eq_ok.mp hok
    obtain ⟨first, rfl, hfirst⟩ := h.taken hread
    obtain ⟨second, rfl, hsecond⟩ := (hnext a).taken hrest
    refine ⟨first ++ second, (List.append_assoc _ _ _).symm, ?_⟩
    exact bind_eq_ok.mpr ⟨a, second, h.more hfirst second, hsecond⟩

theorem Steady.many {read : Reader σ α} (h : Steady read) (n : Nat) : Steady (readMany read n) := by
  induction n with
  | zero => exact steady_pure []
  | succ n ih => exact h.bind fun a => ih.bind fun as => steady_pure (a :: as)

theorem Steady.length_le {read : Reader σ α} (h : Steady read) {s rest : List σ} {a : α}
    (hok : read s = .ok (a, rest)) : rest.length ≤ s.length := by
  obtain ⟨taken, rfl, -⟩ := h.taken hok
  rw [List.length_append]
  omega

theorem Steady.length_lt {read : Reader σ α} (h : Steady read) (hnil : ∀ p, read [] ≠ .ok p)
    {s rest : List σ} {a : α} (hok : read s = .ok (a, rest)) : rest.length < s.length := by
  obtain ⟨taken, rfl, htaken⟩ := h.taken hok
  have hne : taken ≠ [] := by
    rintro rfl
    exact hnil _ htaken
  have hpos := List.length_pos_of_ne_nil hne
  rw [List.length_append]
  omega

/-- Cut off before its end, it only leads to the end of the stream. -/
theorem Steady.cut {read : Reader σ α} (h : Steady read) {s p : List σ} {a : α}
    (hok : read s = .ok (a, [])) (hp : p <+: s) (hne : p ≠ s) : read p = .error .endOfFile := by
  obtain ⟨t, rfl⟩ := hp
  rcases hread : read p with e | ⟨a', rest⟩
  · by_contra he
    have hbad := h.bad hread (fun heq => he (heq ▸ rfl)) t
    rw [hok] at hbad
    cases hbad
  · have hmore := h.more hread t
    rw [hok] at hmore
    obtain ⟨-, hrest⟩ := Prod.mk.inj (Except.ok.inj hmore)
    obtain ⟨-, ht⟩ := List.append_eq_nil_iff.mp hrest.symm
    exact absurd (by rw [ht, List.append_nil]) hne

/-! ### Structs -/

/-- Every reader for a known field is steady. -/
def FieldReader.Steady (known : FieldReader σ β) : Prop :=
  ∀ type id read, known type id = some read → ∀ b, Thrift.Steady (read b)

namespace Encoding

/-- All readers are steady, and a field takes a symbol. -/
structure Steady (E : Encoding σ) : Prop where
  messageBegin : Thrift.Steady E.readMessageBegin
  messageEnd : Thrift.Steady E.readMessageEnd
  structBegin : Thrift.Steady E.readStructBegin
  structEnd : Thrift.Steady E.readStructEnd
  fieldBegin : Thrift.Steady E.readFieldBegin
  fieldBegin_lt : ∀ {s rest : List σ} {p : TType × Int16},
    E.readFieldBegin s = .ok (p, rest) → rest.length < s.length
  fieldEnd : Thrift.Steady E.readFieldEnd
  listBegin : Thrift.Steady E.readListBegin
  listEnd : Thrift.Steady E.readListEnd
  i32 : Thrift.Steady E.readI32
  i64 : Thrift.Steady E.readI64
  string : Thrift.Steady E.readString

variable {E : Encoding σ} {skip : TType → Reader σ Unit} {known : FieldReader σ β}

theorem steady_readField (hskip : ∀ type, Thrift.Steady (skip type)) (hknown : known.Steady)
    (type : TType) (id : Int16) (b : β) : Thrift.Steady (readField skip known type id b) := by
  unfold readField
  split
  · rename_i read hread
    exact hknown type id read hread b
  · exact (hskip type).bind fun _ => steady_pure b

theorem Steady.readFields (hE : E.Steady) (hskip : ∀ type, Thrift.Steady (skip type))
    (hknown : known.Steady) (fuel : Nat) (b : β) :
    Thrift.Steady (E.readFields skip known fuel b) := by
  induction fuel generalizing b with
  | zero => exact steady_throw _
  | succ fuel ih =>
    refine hE.fieldBegin.bind ?_
    rintro ⟨type, id⟩
    dsimp only
    split
    · exact steady_pure b
    · exact (steady_readField hskip hknown type id b).bind fun b => hE.fieldEnd.bind fun _ => ih b

/-- With a round for every symbol and one more, the loop never runs out of rounds. -/
theorem Steady.readFields_eq (hE : E.Steady) (hskip : ∀ type, Thrift.Steady (skip type))
    (hknown : known.Steady) {fuel fuel' : Nat} (b : β) {s : List σ} (h : s.length < fuel)
    (h' : s.length < fuel') :
    E.readFields skip known fuel b s = E.readFields skip known fuel' b s := by
  induction fuel generalizing fuel' b s with
  | zero => omega
  | succ fuel ih =>
    cases fuel' with
    | zero => omega
    | succ fuel' =>
      simp only [Encoding.readFields, bind_eq]
      rcases hbegin : E.readFieldBegin s with e | ⟨⟨type, id⟩, s₁⟩
      · rfl
      · have hlt := hE.fieldBegin_lt hbegin
        dsimp only
        split
        · rfl
        · simp only [bind_eq]
          rcases hfield : readField skip known type id b s₁ with e | ⟨b₁, s₂⟩
          · rfl
          · have hle := (steady_readField hskip hknown type id b).length_le hfield
            dsimp only
            rcases hend : E.readFieldEnd s₂ with e | ⟨_, s₃⟩
            · rfl
            · have hle' := hE.fieldEnd.length_le hend
              exact ih b₁ (by omega) (by omega)

/-- The loop over the fields, with as many rounds as it may need. -/
theorem Steady.fields (hE : E.Steady) (hskip : ∀ type, Thrift.Steady (skip type))
    (hknown : known.Steady) (b : β) :
    Thrift.Steady (fun s => E.readFields skip known (s.length + 1) b s : Reader σ β) where
  more := by
    intro s rest b' hok t
    have hlength : s.length < (s ++ t).length + 1 := by
      rw [List.length_append]
      omega
    rw [hE.readFields_eq hskip hknown b (Nat.lt_succ_self _) hlength] at hok
    exact (hE.readFields hskip hknown _ b).more hok t
  bad := by
    intro s e herror he t
    have hlength : s.length < (s ++ t).length + 1 := by
      rw [List.length_append]
      omega
    rw [hE.readFields_eq hskip hknown b (Nat.lt_succ_self _) hlength] at herror
    exact (hE.readFields hskip hknown _ b).bad herror he t
  taken := by
    intro s rest b' hok
    obtain ⟨taken, rfl, htaken⟩ := (hE.readFields hskip hknown _ b).taken hok
    have hlength : taken.length < (taken ++ rest).length + 1 := by
      rw [List.length_append]
      omega
    refine ⟨taken, rfl, ?_⟩
    rw [hE.readFields_eq hskip hknown b (Nat.lt_succ_self _) hlength]
    exact htaken

theorem Steady.readStruct (hE : E.Steady) (hskip : ∀ type, Thrift.Steady (skip type))
    (hknown : known.Steady) (b : β) : Thrift.Steady (E.readStruct skip known b) :=
  hE.structBegin.bind fun _ =>
    ((hE.fields hskip hknown b).bind fun b => hE.structEnd.bind fun _ => steady_pure b :)

theorem Steady.readList (hE : E.Steady) {read : Reader σ α} (hread : Thrift.Steady read) :
    Thrift.Steady (E.readList read) :=
  hE.listBegin.bind fun p => (hread.many p.2).bind fun xs => hE.listEnd.bind fun _ =>
    steady_pure xs

end Encoding

namespace Protocol

variable {P : Protocol σ} {known : FieldReader σ β}

/-- What the library reads by itself is steady, too. -/
structure Steady (P : Protocol σ) : Prop extends P.toEncoding.Steady where
  skip : ∀ depth type, Thrift.Steady (P.skip depth type)
  call : Thrift.Steady P.readCall
  applicationException : Thrift.Steady P.readApplicationException

theorem Steady.readTracked (hP : P.Steady) (hknown : known.Steady) (depth : Nat) (b : β) :
    Thrift.Steady (P.readTracked depth known b) := by
  unfold Protocol.readTracked
  split
  · exact hP.readStruct (hP.skip (depth + 1)) hknown b
  · exact steady_throw _

/-- There is no call on an empty stream. -/
theorem Steady.readCall_nil (hP : P.Steady) (hlawful : P.Lawful) :
    P.readCall [] = .error .endOfFile := by
  have hname : ([] : List UInt8).length < 2 ^ 31 := by decide
  have hread := hlawful.call [] 0 hname []
  rw [List.append_nil] at hread
  exact hP.call.cut hread List.nil_prefix (hlawful.messageBegin_ne_nil hname .call 0).symm

end Protocol

/-! ### The binary protocol -/

namespace Binary

theorem steady_bytes (n : Nat) : Steady (readBytes n) where
  more := by
    intro s rest bs hok t
    unfold readBytes at hok ⊢
    split at hok
    · cases hok
    · rename_i hlength
      cases hok
      rw [if_neg (by rw [List.length_append]; omega), List.take_append_of_le_length (by omega),
        List.drop_append_of_le_length (by omega)]
  bad := by
    intro s e herror he t
    unfold readBytes at herror
    split at herror
    · cases herror
      exact absurd rfl he
    · cases herror
  taken := by
    intro s rest bs hok
    unfold readBytes at hok
    split at hok
    · cases hok
    · rename_i hlength
      cases hok
      have htaken : (s.take n).length = n := by
        rw [List.length_take]
        omega
      refine ⟨s.take n, (List.take_append_drop n s).symm, ?_⟩
      unfold readBytes
      rw [if_neg (by omega), List.take_take, Nat.min_self,
        List.drop_eq_nil_of_le (by omega)]

theorem steady_nat (w : Nat) : Steady (readNat w) :=
  (steady_bytes w).bind fun bs => steady_pure (decode bs)

theorem steady_byte : Steady readByte := (steady_nat 1).bind fun n => steady_pure (UInt8.ofNat n)

theorem steady_i16 : Steady readI16 := (steady_nat 2).bind fun _ => steady_pure _

theorem steady_i32 : Steady readI32 := (steady_nat 4).bind fun _ => steady_pure _

theorem steady_i64 : Steady readI64 := (steady_nat 8).bind fun _ => steady_pure _

theorem steady_size : Steady readSize := by
  refine (steady_nat 4).bind fun size => ?_
  split
  · exact steady_pure size
  · exact steady_throw _

theorem steady_string : Steady readString := steady_size.bind steady_bytes

theorem steady_fieldBegin : Steady readFieldBegin := by
  refine steady_byte.bind fun type => ?_
  split
  · exact steady_pure _
  · exact steady_i16.bind fun id => steady_pure (type, id)

theorem steady_listBegin : Steady readListBegin :=
  steady_byte.bind fun type => steady_size.bind fun size => steady_pure (type, size)

theorem steady_messageBegin : Steady readMessageBegin := by
  refine (steady_nat 4).bind fun word => ?_
  split
  · split
    · exact steady_string.bind fun name => steady_i32.bind fun seqid => steady_pure _
    · exact steady_throw _
  · exact (steady_bytes word).bind fun name => steady_byte.bind fun type =>
      steady_i32.bind fun seqid => steady_pure _

theorem steady_encoding : encoding.Steady where
  messageBegin := steady_messageBegin
  messageEnd := steady_pure ()
  structBegin := steady_pure ()
  structEnd := steady_pure ()
  fieldBegin := steady_fieldBegin
  fieldBegin_lt := steady_fieldBegin.length_lt (by rintro p ⟨⟩)
  fieldEnd := steady_pure ()
  listBegin := steady_listBegin
  listEnd := steady_pure ()
  i32 := steady_i32
  i64 := steady_i64
  string := steady_string

theorem steady_skip (depth : Nat) (type : TType) : Steady (skip depth type) := by
  induction depth generalizing type with
  | zero => exact steady_throw _
  | succ depth ih =>
    unfold skip
    split
    · rename_i n hn
      exact (steady_bytes n).bind fun _ => steady_pure ()
    · split
      · exact steady_string.bind fun _ => steady_pure ()
      · split
        · refine steady_encoding.readStruct ih ?_ ()
          intro _ _ _ hread
          cases hread
        · split
          · exact steady_byte.bind fun keyType => steady_byte.bind fun valueType =>
              steady_size.bind fun size =>
                (((ih keyType).bind fun _ => ih valueType).many size).bind fun _ => steady_pure ()
          · split
            · exact steady_listBegin.bind fun p =>
                ((ih p.1).many p.2).bind fun _ => steady_pure ()
            · exact steady_pure ()

theorem steady_call : Steady readCall := by
  refine steady_messageBegin.bind ?_
  rintro ⟨name, type, seqid⟩
  dsimp only
  split
  · exact steady_throw _
  · exact steady_pure (name, seqid)

theorem steady_applicationException : Steady readApplicationException := by
  refine steady_encoding.readStruct (steady_skip recursionLimit) ?_ _
  intro type id read hread x
  unfold knownOfException at hread
  split at hread
  · cases hread
    exact steady_string.bind fun _ => steady_pure _
  · split at hread
    · cases hread
      exact steady_i32.bind fun _ => steady_pure _
    · cases hread

theorem steady : protocol.Steady where
  toSteady := steady_encoding
  skip depth := steady_skip (recursionLimit - depth)
  call := steady_call
  applicationException := steady_applicationException

end Binary

end Thrift
