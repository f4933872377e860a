/-!
# Slot tables

A slot table holds elements of different widths. Each element starts at a slot,
occupies as many slots as it is wide, and is followed by the next element
without a gap. Elements are looked up by slot with a binary search over the
starting slots; `scan` states the result of that search as a linear scan.
-/

namespace ClassAccess

/-- The number of slots that a value occupies. -/
class Width (α : Type) where
  width : α → Nat

export Width (width)

/-- Elements with their starting slots, and the slot of the next element. -/
structure SlotTable (α : Type) where
  entries : Array (Nat × α)
  nextSlot : Nat
deriving Repr

namespace SlotTable

variable {α : Type}

/-- A table without elements whose first element will start at `start`. -/
def startingAt (start : Nat) : SlotTable α := ⟨#[], start⟩

instance : Inhabited (SlotTable α) := ⟨startingAt 0⟩

/-- The number of elements. -/
def size (table : SlotTable α) : Nat := table.entries.size

/-- Whether there are no elements. -/
def isEmpty (table : SlotTable α) : Bool := table.entries.isEmpty

/-- Adds an element at the next free slot. -/
def push [Width α] (table : SlotTable α) (value : α) : SlotTable α :=
  ⟨table.entries.push (table.nextSlot, value), table.nextSlot + width value⟩

/-- Adds several elements in order. -/
def pushAll [Width α] (table : SlotTable α) (values : List α) : SlotTable α :=
  values.foldl push table

/-- The table of some elements, the first at slot `start`. -/
def ofList [Width α] (start : Nat) (values : List α) : SlotTable α :=
  (startingAt start).pushAll values

/-- The elements in order. -/
def values (table : SlotTable α) : List α :=
  table.entries.toList.map Prod.snd

/-- The elements in order, each with its slot and its position. -/
def toList (table : SlotTable α) : List (Nat × Nat × α) :=
  table.entries.toList.zipIdx.map fun entry => (entry.1.1, entry.2, entry.1.2)

/-- A table starts without elements. -/
@[simp] theorem values_startingAt (start : Nat) :
    (startingAt start : SlotTable α).values = [] := rfl

/-- Adding an element puts it behind the others. -/
@[simp] theorem values_push [Width α] (table : SlotTable α) (value : α) :
    (table.push value).values = table.values ++ [value] := by
  simp [values, push]

/-- Adding an element uses up the slots that it is wide. -/
@[simp] theorem nextSlot_push [Width α] (table : SlotTable α) (value : α) :
    (table.push value).nextSlot = table.nextSlot + width value := rfl

/-- Adding several elements puts them behind the others. -/
@[simp] theorem values_pushAll [Width α] (table : SlotTable α) (added : List α) :
    (table.pushAll added).values = table.values ++ added := by
  induction added generalizing table with
  | nil => simp [pushAll]
  | cons value rest ih =>
      have tail := ih (table.push value)
      simp only [pushAll, List.foldl_cons] at tail ⊢
      simp [tail]

/-- Tables are compared by their elements and slots; the next slot is not consulted. -/
instance [BEq α] : BEq (SlotTable α) where
  beq left right := left.entries == right.entries

/-- What stands at a slot. -/
inductive Lookup (α : Type) where
  /-- An element starts at the slot; given with its position. -/
  | found (position : Nat) (value : α)
  /-- No element starts at the slot, and the one at this position starts after it. -/
  | missing (position : Nat)
  /-- Every element starts before the slot. -/
  | beyond
deriving DecidableEq, Repr

/-- The element of a successful look-up. -/
def Lookup.value? : Lookup α → Option α
  | .found _ value => some value
  | .missing _ => none
  | .beyond => none

/-- Halves a window of `count` positions from `first` on, keeping the upper half unless its
first position starts after `slot`, until one position is left. -/
def probe (table : SlotTable α) (slot first count : Nat) : Nat :=
  if count ≤ 1 then first
  else
    let half := count / 2
    let middle := first + half
    if (table.entries[middle]?.map Prod.fst).any (slot < ·) then
      table.probe slot first (count - half)
    else
      table.probe slot middle (count - half)
termination_by count

/-- Finds what stands at a slot by binary search. -/
def lookup (table : SlotTable α) (slot : Nat) : Lookup α :=
  let position := table.probe slot 0 table.size
  match table.entries[position]? with
  | none => .beyond
  | some (start, value) =>
      if start = slot then .found position value
      else
        let next := if start < slot then position + 1 else position
        if next = table.size then .beyond else .missing next

/-- The element that starts at a slot. -/
def get? (table : SlotTable α) (slot : Nat) : Option α :=
  (table.lookup slot).value?

/-- What stands at a slot, by scanning the elements from the first on. -/
def scan (table : SlotTable α) (slot : Nat) : Lookup α :=
  let position := (table.entries.toList.takeWhile fun entry => entry.1 < slot).length
  match table.entries[position]? with
  | none => .beyond
  | some (start, value) => if start = slot then .found position value else .missing position

/-- The text of a table, given the text of its elements. -/
def render (table : SlotTable α) (element : α → String) : String :=
  "[" ++ String.intercalate ", "
    (table.entries.toList.map fun entry => "#" ++ toString entry.1 ++ " = " ++ element entry.2)
    ++ "]"

end SlotTable

end ClassAccess
