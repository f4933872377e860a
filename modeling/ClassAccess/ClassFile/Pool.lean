import ClassAccess.ClassFile.Constant
import ClassAccess.Text.ModifiedUtf8

/-!
# Constant pools

A constant pool is a slot table of constants whose first slot is 1. It is stored
as the slot after its last constant and then the constants. Other parts of a
class file name texts and classes by their slots; `text` and `className` resolve
such a slot, or say why they cannot.
-/

namespace ClassAccess.ClassFile

/-- The constants of a class file. -/
abbrev Pool := SlotTable Constant

namespace Pool

/-- The pool without constants. -/
def empty : Pool := SlotTable.startingAt 1

/-- The stored form of a pool. The count is reduced modulo 2^16. -/
def write (pool : Pool) : List UInt8 :=
  Codec.write (UInt16.ofNat pool.nextSlot) ++ pool.values.flatMap Constant.write

/-- Reads constants behind those of a pool until `count` slots are used. -/
def readOnto (count : Nat) (pool : Pool) : Reader Pool :=
  if pool.nextSlot < count then do
    let constant ← Constant.readAt pool.nextSlot
    readOnto count (pool.push constant)
  else pure pool
termination_by count - pool.nextSlot
decreasing_by
  have positive := Constant.width_pos constant
  simp only [SlotTable.push]
  omega

/-- Reads a pool. Its last constant must end at the count that it declares. -/
def read : Reader Pool := do
  let count : UInt16 ← Codec.read
  let pool ← readOnto count.toNat empty
  if pool.nextSlot = count.toNat then return pool
  else throw (.poolOverrun count pool.nextSlot)

instance : Codec Pool where
  write := Pool.write
  read := Pool.read

/-- The text at a slot. -/
def text (pool : Pool) (slot : UInt16) : Except Fault String :=
  match pool.get? slot.toNat with
  | some (.text bytes) =>
      match Text.ModifiedUtf8.decode bytes with
      | some text => .ok text
      | none => .error (.badText slot)
  | _ => .error (.badReference slot .text)

/-- The name of the class at a slot. -/
def className (pool : Pool) (slot : UInt16) : Except Fault String :=
  match pool.get? slot.toNat with
  | some (.classRef name) => pool.text name
  | _ => .error (.badReference slot .className)

end Pool

end ClassAccess.ClassFile
