import ClassAccess.Proofs.Fallible
import ClassAccess.Proofs.Storage

/-!
# How reading a constant fails

A reader that is put together from others has no faults but theirs. The parts of a
constant end too early, or name no kind of handle; they know nothing of tags. Hence a
tag is reported as unknown exactly when it stands in front of the bytes and no kind
of constant has it, together with the slot that the constant was to occupy.

`FailsWith` only bounds the faults that a reader has. It does not say that it has any.
-/

namespace ClassAccess.ClassFile

/-- A reader whose faults are all of some kind. -/
def FailsWith {α : Type} (allowed : Fault → Prop) (reader : Reader α) : Prop :=
  ∀ input fault, reader.run input = .error fault → allowed fault

/-- A reader in two steps fails in the first one, or in the second one on what that left. -/
theorem run_bind_eq_error_iff {α β : Type} {reader : Reader α} {next : α → Reader β}
    {input : List UInt8} {fault : Fault} :
    (reader >>= next).run input = .error fault ↔
      reader.run input = .error fault ∨
        ∃ first middle, Reads reader input first middle ∧ (next first).run middle = .error fault := by
  simp only [StateT.run_bind, bind_eq_error_iff, Prod.exists, Reads]

namespace FailsWith

variable {α β : Type} {allowed : Fault → Prop} {reader : Reader α}

/-- A reader that takes nothing has no fault. -/
theorem pure (given : α) : FailsWith allowed (pure given : Reader α) := by
  intro input fault failed
  cases failed

/-- Two steps have the faults of either. -/
theorem bind {next : α → Reader β} (first : FailsWith allowed reader)
    (second : ∀ value, FailsWith allowed (next value)) : FailsWith allowed (reader >>= next) := by
  intro input fault failed
  rcases run_bind_eq_error_iff.mp failed with early | ⟨value, middle, -, late⟩
  · exact first input fault early
  · exact second value middle fault late

/-- Applying a function to the value adds no fault. -/
theorem map {apply : α → β} (fails : FailsWith allowed reader) :
    FailsWith allowed (apply <$> reader) := by
  rw [map_eq_pure_bind]
  exact fails.bind fun value => pure (apply value)

/-- A function and its argument have the faults of either. -/
theorem seq {function : Reader (α → β)} (first : FailsWith allowed function)
    (second : FailsWith allowed reader) : FailsWith allowed (function <*> reader) := by
  rw [seq_eq_bind_map]
  exact first.bind fun apply => second.map

end FailsWith

/-- The faults of a part of a constant. -/
inductive Fault.IsOfPart : Fault → Prop where
  | endOfInput : IsOfPart .endOfInput
  | badHandleKind (code : UInt8) : IsOfPart (.badHandleKind code)

/-- Bytes can only be too few. -/
theorem failsWith_readBytes (size : Nat) : FailsWith Fault.IsOfPart (readBytes size) := by
  intro input fault failed
  simp only [StateT.run, readBytes] at failed
  split at failed
  · cases failed
  · cases failed
    exact .endOfInput

/-- A codec that reads a part of a constant. -/
class PartCodec (α : Type) [Codec α] : Prop where
  failsWith : FailsWith Fault.IsOfPart (read : Reader α)

open PartCodec (failsWith)

instance : PartCodec UInt8 := ⟨(failsWith_readBytes 1).map.map⟩

instance : PartCodec UInt16 := ⟨(failsWith_readBytes 2).map.map⟩

instance : PartCodec UInt32 := ⟨(failsWith_readBytes 4).map.map⟩

instance : PartCodec UInt64 := ⟨(failsWith_readBytes 8).map.map⟩

instance : PartCodec Int32 := ⟨(failsWith (α := UInt32)).map⟩

instance : PartCodec Int64 := ⟨(failsWith (α := UInt64)).map⟩

instance : PartCodec HandleKind where
  failsWith := by
    rw [read_handleKind]
    refine failsWith.bind fun code => ?_
    split
    · exact .pure _
    · intro input fault failed
      cases failed
      exact .badHandleKind code

namespace Constant

/-- The tags that stand for a kind of constant. -/
def IsTag (tag : UInt8) : Prop :=
  tag = 1 ∨ 3 ≤ tag ∧ tag ≤ 12 ∨ 15 ≤ tag ∧ tag ≤ 20

instance : DecidablePred IsTag := fun tag =>
  inferInstanceAs (Decidable (tag = 1 ∨ 3 ≤ tag ∧ tag ≤ 12 ∨ 15 ≤ tag ∧ tag ≤ 20))

/-- The parts behind a known tag fail as parts do. -/
theorem failsWith_readBody {tag : UInt8} (known : IsTag tag) (slot : Nat) :
    FailsWith Fault.IsOfPart (readBody tag slot) := by
  unfold readBody
  split
  case h_1 => exact failsWith.bind fun size => (failsWith_readBytes size.toNat).map
  case h_2 | h_3 | h_4 | h_5 | h_6 | h_7 | h_13 | h_16 | h_17 => exact failsWith.map
  case h_18 =>
    -- Each of the known tags has a case of its own.
    exfalso
    simp only [IsTag, ← UInt8.toNat_inj, UInt8.le_iff_toNat_le, UInt8.reduceToNat, imp_false] at *
    omega
  all_goals exact failsWith.map.seq failsWith

/-- Behind any other tag nothing is read. -/
theorem readBody_of_not_isTag {tag : UInt8} (unknown : ¬ IsTag tag) (slot : Nat) :
    readBody tag slot = throw (.unknownTag tag slot) := by
  unfold readBody
  split
  case h_18 => rfl
  all_goals exact absurd (by decide) unknown

/-- Reading a constant reports the tag in front as unknown when no kind of constant has it, with the
slot that the constant was to occupy. Otherwise it fails as the parts do. -/
theorem run_readAt_eq_error {slot : Nat} {input : List UInt8} {fault : Fault}
    (failed : (readAt slot).run input = .error fault) :
    fault.IsOfPart ∨
      ∃ tag rest, input = tag :: rest ∧ ¬ IsTag tag ∧ fault = .unknownTag tag slot := by
  rcases run_bind_eq_error_iff.mp failed with untagged | ⟨tag, rest, taken, broken⟩
  · exact .inl (failsWith input fault untagged)
  · obtain ⟨-, rfl⟩ := reads_read.mp taken
    by_cases known : IsTag tag
    · exact .inl (failsWith_readBody known slot rest fault broken)
    · rw [readBody_of_not_isTag known] at broken
      cases broken
      exact .inr ⟨tag, rest, by simp [write_byte], known, rfl⟩

/-- A tag is reported as unknown exactly when it stands in front and no kind of constant has it. -/
theorem run_readAt_eq_unknownTag_iff {slot named : Nat} {input : List UInt8} {tag : UInt8} :
    (readAt slot).run input = .error (.unknownTag tag named) ↔
      named = slot ∧ ¬ IsTag tag ∧ ∃ rest, input = tag :: rest := by
  constructor
  · intro failed
    rcases run_readAt_eq_error failed with ofPart | ⟨_, rest, rfl, unknown, same⟩
    · cases ofPart
    · cases same
      exact ⟨rfl, unknown, rest, rfl⟩
  · rintro ⟨rfl, unknown, rest, rfl⟩
    refine run_bind_eq_error_iff.mpr (.inr ⟨tag, rest, ?_, ?_⟩)
    · exact reads_read.mpr ⟨trivial, by simp [write_byte]⟩
    · rw [readBody_of_not_isTag unknown]
      rfl

end Constant

end ClassAccess.ClassFile
