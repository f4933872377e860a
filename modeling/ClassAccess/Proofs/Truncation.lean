import ClassAccess.Proofs.Storage

/-!
# Class files with too few or too many bytes

A reader is incremental when the bytes that it takes are all that its result
depends on: whatever follows them is left, and with fewer of them it runs out of
input, having found no other fault on the way. Incremental readers compose, so
that the reader of class files is one because its parts are. No class file is
therefore the front of another one.

Nothing is said here about bytes that are neither a class file nor the front of
one; these may show any fault.
-/

namespace ClassAccess.ClassFile

/-- A reader takes a value from some bytes, whatever follows them, and runs out of input with
fewer of them. -/
structure Takes {α : Type} (reader : Reader α) (taken : List UInt8) (value : α) : Prop where
  followed : ∀ rest, Reads reader (taken ++ rest) value rest
  cut : ∀ front missing, front ++ missing = taken → missing ≠ [] →
    reader.run front = .error .endOfInput

/-- A reader whose result depends on the bytes that it takes, all of which it needs. -/
def Incremental {α : Type} (reader : Reader α) : Prop :=
  ∀ input value rest, Reads reader input value rest →
    ∃ taken, input = taken ++ rest ∧ Takes reader taken value

namespace Incremental

variable {α β : Type} {reader : Reader α}

/-- Taking nothing needs nothing. -/
theorem pure (given : α) : Incremental (pure given : Reader α) := by
  intro input value rest taken
  obtain ⟨rfl, rfl⟩ := reads_pure.mp taken
  refine ⟨[], rfl, fun rest => reads_pure.mpr ⟨rfl, rfl⟩, fun front missing whole more => ?_⟩
  exact absurd (List.append_eq_nil_iff.mp whole).2 more

/-- A reader that fails takes nothing, whatever would come next. -/
theorem throwThen (fault : Fault) (next : β → Reader α) : Incremental (throw fault >>= next) := by
  intro input value rest taken
  obtain ⟨_, _, thrown, -⟩ := reads_bind.mp taken
  exact absurd thrown reads_throw

/-- A reader that fails takes nothing. -/
theorem throw (fault : Fault) : Incremental (throw fault : Reader α) :=
  fun _ _ _ taken => absurd taken reads_throw

/-- A second step takes the bytes behind those of the first one. -/
theorem bind {next : α → Reader β} (ofFirst : Incremental reader)
    (ofNext : ∀ value, Incremental (next value)) : Incremental (reader >>= next) := by
  intro input value rest taken
  obtain ⟨first, middle, read, continued⟩ := reads_bind.mp taken
  obtain ⟨early, rfl, takesFirst⟩ := ofFirst _ _ _ read
  obtain ⟨late, rfl, takesNext⟩ := ofNext first _ _ _ continued
  refine ⟨early ++ late, (List.append_assoc ..).symm, fun rest => ?_, ?_⟩
  · rw [List.append_assoc]
    exact reads_bind.mpr ⟨first, _, takesFirst.followed _, takesNext.followed rest⟩
  · intro front missing whole more
    rw [StateT.run_bind]
    -- The input ends within the bytes of the first step, or behind them.
    rcases List.append_eq_append_iff.mp whole with ⟨unread, ahead, behind⟩ | ⟨left, ahead, behind⟩
    · by_cases complete : unread = []
      · subst complete
        rw [List.append_nil] at ahead
        have ran := takesFirst.followed []
        rw [List.append_nil, ahead] at ran
        rw [ran]
        exact takesNext.cut [] missing behind more
      · rw [takesFirst.cut front unread ahead.symm complete]
        rfl
    · have ran := takesFirst.followed left
      rw [← ahead] at ran
      rw [ran]
      exact takesNext.cut left missing behind.symm more

/-- What is made of a value needs no bytes of its own. -/
theorem map {apply : α → β} (incremental : Incremental reader) :
    Incremental (apply <$> reader) := by
  rw [map_eq_pure_bind]
  exact incremental.bind fun value => pure (apply value)

/-- A function and its argument take their bytes one after the other. -/
theorem seq {function : Reader (α → β)} (ofFunction : Incremental function)
    (ofArgument : Incremental reader) : Incremental (function <*> reader) := by
  rw [seq_eq_bind_map]
  exact ofFunction.bind fun apply => ofArgument.map

/-- As many bytes are needed as are requested. -/
theorem readBytes (size : Nat) : Incremental (readBytes size) := by
  intro input value rest taken
  obtain ⟨rfl, rfl⟩ := reads_readBytes.mp taken
  refine ⟨value, rfl, fun rest => reads_readBytes.mpr ⟨rfl, rfl⟩, ?_⟩
  rintro front missing rfl more
  have short : front.length < (front ++ missing).length := by
    rw [List.length_append]
    exact Nat.lt_add_of_pos_right (List.length_pos_iff.mpr more)
  have few : ¬ (front.take (front ++ missing).length).length = (front ++ missing).length := by
    rw [List.length_take]
    omega
  simp only [StateT.run, ClassFile.readBytes, if_neg few]

/-- A number needs all its digits. -/
theorem readNat (size : Nat) : Incremental (readNat size) := (readBytes size).map

end Incremental

/-- A codec with an incremental reader. -/
class IncrementalCodec (α : Type) [Codec α] : Prop where
  incremental : Incremental (read : Reader α)

open IncrementalCodec (incremental)

instance : IncrementalCodec UInt8 := ⟨(Incremental.readNat 1).map⟩

instance : IncrementalCodec UInt16 := ⟨(Incremental.readNat 2).map⟩

instance : IncrementalCodec UInt32 := ⟨(Incremental.readNat 4).map⟩

instance : IncrementalCodec UInt64 := ⟨(Incremental.readNat 8).map⟩

instance : IncrementalCodec Int32 := ⟨(incremental (α := UInt32)).map⟩

instance : IncrementalCodec Int64 := ⟨(incremental (α := UInt64)).map⟩

section Lists

variable {α : Type} [Codec α] [IncrementalCodec α]

/-- Several values take their bytes one after the other. -/
theorem incremental_readManyOnto (done : List α) (count : Nat) :
    Incremental (readManyOnto done count) := by
  induction count generalizing done with
  | zero => exact .pure _
  | succ count ih => exact incremental.bind fun value => ih (value :: done)

instance : IncrementalCodec (List α) :=
  ⟨(incremental (α := UInt16)).bind fun count => incremental_readManyOnto [] count.toNat⟩

end Lists

instance : IncrementalCodec HandleKind where
  incremental := by
    rw [read_handleKind]
    refine incremental.bind fun code => ?_
    split
    · exact .pure _
    · exact .throw _

/-- The tag of a constant says which parts are needed. -/
theorem Constant.incremental_readBody (tag : UInt8) (slot : Nat) :
    Incremental (readBody tag slot) := by
  unfold readBody
  split
  case h_1 => exact incremental.bind fun size => (Incremental.readBytes size.toNat).map
  case h_18 => exact .throw _
  case h_2 | h_3 | h_4 | h_5 | h_6 | h_7 | h_13 | h_16 | h_17 => exact incremental.map
  all_goals exact incremental.map.seq incremental

/-- Constants are needed until the counted slots are used. -/
theorem Pool.incremental_readOnto (count : Nat) (pool : Pool) :
    Incremental (readOnto count pool) := by
  fun_induction readOnto count pool with
  | case1 pool room ih =>
      have ofConstant : Incremental (Constant.readAt pool.nextSlot) :=
        incremental.bind fun tag => Constant.incremental_readBody tag pool.nextSlot
      exact ofConstant.bind ih
  | case2 pool full => exact .pure _

instance : IncrementalCodec Pool where
  incremental := by
    change Incremental Pool.read
    refine (incremental (α := UInt16)).bind fun count => ?_
    refine (Pool.incremental_readOnto count.toNat Pool.empty).bind fun pool => ?_
    split
    · exact .pure _
    · exact .throw _

instance : IncrementalCodec Version where
  incremental := by
    rw [read_version]
    exact incremental.bind fun minor => incremental.bind fun major => .pure _

instance : IncrementalCodec Attribute where
  incremental := by
    rw [read_attribute]
    exact incremental.bind fun name => incremental.bind fun size =>
      (Incremental.readBytes size.toNat).bind fun info => .pure _

instance : IncrementalCodec Member where
  incremental := by
    rw [read_member]
    exact incremental.bind fun access => incremental.bind fun name =>
      incremental.bind fun descriptor => incremental.bind fun attributes => .pure _

instance : IncrementalCodec ClassFile where
  incremental := by
    change Incremental readPrefix
    refine incremental.bind fun number => ?_
    split
    · exact .throwThen _ _
    · exact incremental.bind fun version => incremental.bind fun constants =>
        incremental.bind fun access => incremental.bind fun thisClass =>
        incremental.bind fun superClass => incremental.bind fun interfaces =>
        incremental.bind fun fields => incremental.bind fun methods =>
        incremental.bind fun attributes => .pure _

/-- Bytes that are read as a whole are all needed, and there may be no more of them. -/
theorem readWhole_of_ok {α : Type} [Codec α] [IncrementalCodec α] {bytes : List UInt8}
    {value : α} (read : readWhole bytes = .ok value) :
    (∀ front missing, front ++ missing = bytes → missing ≠ [] →
      (readWhole front : Except Fault α) = .error .endOfInput) ∧
    ∀ extra, extra ≠ [] →
      (readWhole (bytes ++ extra) : Except Fault α) = .error (.trailingBytes extra.length) := by
  have whole : Reads (Codec.read : Reader α) bytes value [] := by
    rw [readWhole] at read
    split at read
    · cases read
    · next ran =>
        cases read
        exact ran
    · cases read
  obtain ⟨taken, same, takes⟩ := incremental _ _ _ whole
  rw [List.append_nil] at same
  subst same
  constructor
  · intro front missing cut more
    rw [readWhole, takes.cut front missing cut more]
  · intro extra more
    have ran : (Codec.read : Reader α).run (bytes ++ extra) = .ok (value, extra) :=
      takes.followed extra
    rw [readWhole, ran]
    cases extra with
    | nil => exact absurd rfl more
    | cons byte later => rfl

/-- All bytes of a class file are needed, wherever they are cut off, and any more are too many. -/
theorem parse_of_cut_or_extended {bytes : List UInt8} {file : ClassFile}
    (parsed : parse bytes = .ok file) :
    (∀ front, front <+: bytes → front ≠ bytes →
      parse front = .error .endOfInput ∧
        Fault.endOfInput.message = "I/O error: failed to fill whole buffer") ∧
    ∀ extra, extra ≠ [] → parse (bytes ++ extra) = .error (.trailingBytes extra.length) := by
  obtain ⟨cut, extended⟩ := readWhole_of_ok parsed
  refine ⟨?_, extended⟩
  rintro front ⟨missing, whole⟩ shorter
  refine ⟨cut front missing whole ?_, rfl⟩
  rintro rfl
  exact shorter (by rw [← whole, List.append_nil])

/-- The bytes of `sample` end within a constant of two slots when 40 of them are left, and two bytes
more are too many. -/
theorem parse_of_cut_or_extended_sample :
    parse sampleBytes = .ok sample ∧
      parse (sampleBytes.take 40) = .error .endOfInput ∧
      parse (sampleBytes ++ [0, 0]) = .error (.trailingBytes 2) := by
  obtain ⟨cut, extended⟩ := parse_of_cut_or_extended parse_sampleBytes
  exact ⟨parse_sampleBytes, (cut _ (List.take_prefix 40 sampleBytes) (by decide)).1,
    extended [0, 0] (by decide)⟩

end ClassAccess.ClassFile
