import ClassAccess.Proofs.Storage
import Mathlib.Data.List.Basic

/-!
# Bytes that hold nested classes

An entry of the attribute `InnerClasses` is stored in eight bytes, and every eight
bytes are the stored form of one. Whether bytes hold entries is therefore a matter
of their length alone: `IsCounted` compares it with the count in front, and
`ofInfo_isExact` says that exactly the counted bytes are taken, that storing what
was taken gives them back, and that all others are refused with one and the same
fault.

Nothing is asked of the slots in the entries, which may lead nowhere.
-/

namespace ClassAccess.ClassFile

section FixedSize

/-- A type whose stored forms are all the byte strings of one size. -/
class FixedSize (α : Type) [Codec α] (size : outParam Nat) : Prop where
  length_write : ∀ value : α, (write value).length = size
  exists_write : ∀ bytes : List UInt8, bytes.length = size → ∃ value : α, write value = bytes

instance : FixedSize UInt16 2 where
  length_write _ := length_bigEndian _ _
  exists_write bytes sized := by
    refine ⟨UInt16.ofNat (ofBigEndian bytes), ?_⟩
    have fits := ofBigEndian_lt bytes
    rw [sized] at fits
    change bigEndian 2 (UInt16.ofNat (ofBigEndian bytes)).toNat = bytes
    rw [UInt16.toNat_ofNat_of_lt' fits, ← sized, bigEndian_ofBigEndian]

/-- The bytes of a word are the digits of its number. -/
theorem ofBigEndian_write (word : UInt16) : ofBigEndian (write word) = word.toNat :=
  ofBigEndian_bigEndian word.toNat_lt

variable {α : Type} [Codec α] {size : Nat} [FixedSize α size]

/-- The front of enough bytes is the stored form of a value. -/
theorem FixedSize.exists_front (bytes : List UInt8) (enough : size ≤ bytes.length) :
    ∃ (value : α) (rest : List UInt8), bytes = write value ++ rest := by
  obtain ⟨value, stored⟩ :=
    FixedSize.exists_write (α := α) (bytes.take size) (List.length_take_of_le enough)
  exact ⟨value, bytes.drop size, by rw [stored, List.take_append_drop]⟩

/-- The front of bytes that start with a stored value is the stored form of this value. -/
theorem FixedSize.take_write_append (value : α) (rest : List UInt8) :
    (write value ++ rest).take size = write value := by
  rw [← FixedSize.length_write value, List.take_left]

/-- Stored one behind the other, values take up their common size each. -/
theorem FixedSize.length_flatMap_write (values : List α) :
    (values.flatMap write).length = size * values.length := by
  rw [List.length_flatMap, List.map_congr_left fun value _ => FixedSize.length_write value,
    List.map_const', List.sum_replicate_nat, Nat.mul_comm]

/-- Bytes that are a multiple of the size are values stored one behind the other. -/
theorem FixedSize.exists_flatMap_write (count : Nat) (bytes : List UInt8)
    (sized : bytes.length = size * count) :
    ∃ values : List α, values.length = count ∧ bytes = values.flatMap write := by
  induction count generalizing bytes with
  | zero => exact ⟨[], rfl, List.eq_nil_of_length_eq_zero sized⟩
  | succ count ih =>
      rw [Nat.mul_succ] at sized
      obtain ⟨first, rest, rfl⟩ := FixedSize.exists_front (α := α) bytes (by omega)
      rw [List.length_append, FixedSize.length_write] at sized
      obtain ⟨later, rfl, rfl⟩ := ih rest (by omega)
      exact ⟨first :: later, rfl, rfl⟩

end FixedSize

namespace NestedClass

instance : FixedSize NestedClass 8 where
  length_write entry := by
    simp only [write_nestedClass, List.length_append, FixedSize.length_write]
  exists_write bytes sized := by
    obtain ⟨words, four, rfl⟩ := FixedSize.exists_flatMap_write (α := UInt16) 4 bytes sized
    obtain ⟨self, outer, simpleName, access, rfl⟩ := List.length_eq_four.mp four
    exact ⟨⟨self, outer, simpleName, access⟩, by simp [write_nestedClass]⟩

/-- Entries take up eight bytes each behind their count. -/
theorem length_toInfo (entries : List NestedClass) :
    (toInfo entries).length = 2 + 8 * entries.length := by
  change (write (UInt16.ofNat entries.length) ++ entries.flatMap write).length = _
  rw [List.length_append, FixedSize.length_write, FixedSize.length_flatMap_write]

/-- The bytes of the attribute start with the number of its entries. -/
theorem take_toInfo {entries : List NestedClass} (few : entries.length ≤ 65535) :
    ofBigEndian ((toInfo entries).take 2) = entries.length := by
  change ofBigEndian ((write (UInt16.ofNat entries.length) ++ _).take 2) = _
  rw [FixedSize.take_write_append, ofBigEndian_write,
    UInt16.toNat_ofNat_of_lt' (Nat.lt_succ_of_le few)]

/-- Bytes as long as the count in their first two calls for, at eight bytes an entry. -/
structure IsCounted (info : List UInt8) : Prop where
  counts : 2 ≤ info.length
  length : info.length = 2 + 8 * ofBigEndian (info.take 2)

instance (info : List UInt8) : Decidable (IsCounted info) :=
  decidable_of_iff (2 ≤ info.length ∧ info.length = 2 + 8 * ofBigEndian (info.take 2))
    ⟨fun ⟨counts, length⟩ => ⟨counts, length⟩, fun counted => ⟨counted.counts, counted.length⟩⟩

/-- Stored entries are counted. -/
theorem isCounted_toInfo {entries : List NestedClass} (few : entries.length ≤ 65535) :
    IsCounted (toInfo entries) where
  counts := by
    rw [length_toInfo]
    omega
  length := by rw [take_toInfo few, length_toInfo]

/-- Counted bytes are stored entries, no more than two bytes can count. -/
theorem IsCounted.exists_toInfo {info : List UInt8} (counted : IsCounted info) :
    ∃ entries : List NestedClass, entries.length ≤ 65535 ∧ info = toInfo entries := by
  obtain ⟨counts, sized⟩ := counted
  obtain ⟨count, stored, rfl⟩ := FixedSize.exists_front (α := UInt16) info counts
  rw [FixedSize.take_write_append, ofBigEndian_write, List.length_append, FixedSize.length_write,
    Nat.add_left_cancel_iff] at sized
  obtain ⟨entries, length, rfl⟩ :=
    FixedSize.exists_flatMap_write (α := NestedClass) count.toNat stored sized
  have bound := count.toNat_lt
  refine ⟨entries, by omega, ?_⟩
  change _ = write (UInt16.ofNat entries.length) ++ entries.flatMap write
  rw [length, UInt16.ofNat_toNat]

/-- Bytes hold entries exactly when they are counted. -/
theorem exists_ofInfo_eq_ok_iff {info : List UInt8} :
    (∃ entries, ofInfo info = .ok entries) ↔ IsCounted info := by
  simp only [ofInfo_eq_ok_iff]
  constructor
  · rintro ⟨entries, few, rfl⟩
    exact isCounted_toInfo few
  · exact IsCounted.exists_toInfo

/-- There is one fault for all bytes that are refused. -/
theorem ofInfo_eq_error {info : List UInt8} {fault : Fault} (refused : ofInfo info = .error fault) :
    fault = .malformedAttribute attributeName := by
  rw [ofInfo] at refused
  cases held : readWhole (α := List NestedClass) info with
  | ok entries =>
      rw [held] at refused
      cases refused
  | error inner =>
      rw [held] at refused
      cases refused
      rfl

/-- What becomes of some bytes of the attribute: they are taken exactly when they are counted,
what is taken is stored as these bytes again, and all others have the same fault. -/
structure IsExact (info : List UInt8) : Prop where
  taken : (∃ entries, ofInfo info = .ok entries) ↔ IsCounted info
  stored : ∀ entries, ofInfo info = .ok entries → toInfo entries = info
  refused : ¬ IsCounted info → ofInfo info = .error (.malformedAttribute "InnerClasses")

/-- All bytes of the attribute are taken exactly, and entries that two bytes can count are taken
from the bytes that they are stored as. -/
theorem ofInfo_isExact :
    (∀ info, IsExact info) ∧
      ∀ entries : List NestedClass, entries.length ≤ 65535 →
        ofInfo (toInfo entries) = .ok entries := by
  refine ⟨fun info => ⟨exists_ofInfo_eq_ok_iff, ?_, ?_⟩, ?_⟩
  · intro entries held
    exact (ofInfo_eq_ok_iff.mp held).2.symm
  · intro uncounted
    cases held : ofInfo info with
    | ok entries => exact absurd (exists_ofInfo_eq_ok_iff.mp ⟨entries, held⟩) uncounted
    | error fault => rw [ofInfo_eq_error held, attributeName]
  · intro entries few
    exact ofInfo_eq_ok_iff.mpr ⟨few, rfl⟩

/-- One entry is taken from its ten bytes, and its first four bytes alone are refused. -/
theorem ofInfo_isExact_single :
    ofInfo (toInfo [⟨3, 1, 0, 10⟩]) = .ok [⟨3, 1, 0, 10⟩] ∧
      IsCounted [0, 1, 0, 3, 0, 1, 0, 0, 0, 10] ∧
      toInfo [⟨3, 1, 0, 10⟩] = [0, 1, 0, 3, 0, 1, 0, 0, 0, 10] ∧
      ofInfo [0, 1, 0, 3] = .error (.malformedAttribute "InnerClasses") :=
  ⟨ofInfo_isExact.2 _ (by decide), by decide, (ofInfo_isExact.1 _).stored _ (by rfl),
    (ofInfo_isExact.1 _).refused (by decide)⟩

end NestedClass

end ClassAccess.ClassFile
