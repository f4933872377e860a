import ClassAccess.ClassFile.Pool
import Std.Data.HashMap

/-!
# Building constant pools

A builder appends constants and remembers the texts and classes that it was
asked for, so that asking again gives the same slot. The slot after the last
constant never exceeds the largest one that can be stored; a request that would
exceed it fails.
-/

namespace ClassAccess.ClassFile

/-- A pool under construction, with the slots of the texts and classes asked for. Classes are
remembered by the slots of their names. -/
structure PoolBuilder where
  pool : Pool
  texts : Std.HashMap String UInt16
  classes : Std.HashMap UInt16 UInt16

namespace PoolBuilder

/-- The constant that did not fit, and the slot at which it would have started. -/
structure Overflow where
  constant : Constant
  slot : UInt16
deriving DecidableEq, Repr

/-- The builder of a pool without constants. -/
def empty : PoolBuilder := ⟨Pool.empty, ∅, ∅⟩

instance : Inhabited PoolBuilder := ⟨empty⟩

/-- The largest slot that can be stored. -/
def maxSlot : Nat := 65535

/-- A request returns a slot or fails, and in either case leaves a builder. -/
abbrev Request := ExceptT Overflow (StateM PoolBuilder) UInt16

/-- The slot that lies some slots further on, unless it is beyond the largest one. -/
def checkedAdd (slot amount : UInt16) : Option UInt16 :=
  if slot.toNat + amount.toNat ≤ maxSlot then some (slot + amount) else none

/-- Appends a constant. -/
def push (constant : Constant) : Request := do
  let slot := UInt16.ofNat (← get).pool.nextSlot
  if (checkedAdd slot (UInt16.ofNat (width constant))).isNone then throw ⟨constant, slot⟩
  modify fun builder => { builder with pool := builder.pool.push constant }
  return slot

/-- The slot of a text, which is appended unless it was asked for before. -/
def text (value : String) : Request := do
  match (← get).texts[value]? with
  | some slot => return slot
  | none =>
      let slot ← push (.text (Text.ModifiedUtf8.encode value))
      modify fun builder => { builder with texts := builder.texts.insert value slot }
      return slot

/-- The slot of a class, which is appended after its name unless it was asked for before. -/
def className (name : String) : Request := do
  let nameSlot ← text name
  match (← get).classes[nameSlot]? with
  | some slot => return slot
  | none =>
      let slot ← push (.classRef nameSlot)
      modify fun builder => { builder with classes := builder.classes.insert nameSlot slot }
      return slot

end PoolBuilder

end ClassAccess.ClassFile
