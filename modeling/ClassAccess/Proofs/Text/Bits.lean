import Mathlib.Algebra.Ring.Nat

/-!
# Bits behind marks

Parts of a number are put into bytes by masks and marks: a mask lets the lowest bits
through, and a mark fills the bits above them. In numbers, masking takes a remainder and
marking adds.
-/

namespace ClassAccess.Text

/-- Bits that a mark leaves free are added to it. -/
theorem or_mark {bits mark : UInt8} (size : Nat) (small : bits.toNat < 2 ^ size)
    (free : 2 ^ size ∣ mark.toNat) : bits ||| mark = UInt8.ofNat (mark.toNat + bits.toNat) := by
  obtain ⟨high, marked⟩ := free
  have sum : bits.toNat ||| mark.toNat = mark.toNat + bits.toNat := by
    rw [marked, Nat.or_comm, ← Nat.two_pow_add_eq_or_of_lt small]
  have fits : mark.toNat + bits.toNat < 2 ^ 8 := by
    rw [← sum]
    exact Nat.or_lt_two_pow bits.toNat_lt mark.toNat_lt
  rw [← UInt8.toNat_inj, UInt8.toNat_or, sum, UInt8.toNat_ofNat_of_lt' fits]

/-- The bits that a mask lets through. -/
theorem toNat_masked (bits : UInt32) {mask : UInt32} (size : Nat)
    (all : mask.toNat = 2 ^ size - 1) (room : 2 ^ size ≤ 2 ^ 8) :
    (bits &&& mask).toUInt8.toNat = bits.toNat % 2 ^ size := by
  have below : bits.toNat % 2 ^ size < 2 ^ size := Nat.mod_lt _ (Nat.two_pow_pos size)
  rw [UInt32.toNat_toUInt8, UInt32.toNat_and, all, Nat.and_two_pow_sub_one_eq_mod,
    Nat.mod_eq_of_lt (Nat.lt_of_lt_of_le below room)]

/-- Bits that a mask lets through and a mark leaves free are added to it. -/
theorem masked_or_mark (bits : UInt32) {mask : UInt32} {mark : UInt8} (size : Nat)
    (all : mask.toNat = 2 ^ size - 1) (free : 2 ^ size ∣ mark.toNat) (room : 2 ^ size ≤ 2 ^ 8) :
    (bits &&& mask).toUInt8 ||| mark = UInt8.ofNat (mark.toNat + bits.toNat % 2 ^ size) := by
  have low := toNat_masked bits size all room
  rw [or_mark size (low ▸ Nat.mod_lt _ (Nat.two_pow_pos size)) free, low]

end ClassAccess.Text
