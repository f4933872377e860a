import ClassAccess.ClassFile.Basic
import ClassAccess.ClassFile.NestedClass

/-!
# Walking the access words of a class

A visitor is called once for the header, then for each field, each method and
each entry of the `InnerClasses` attributes of the class, and at last when the
walk is over. It gets an access word with the names of the thing that the word
belongs to, and answers with the word to write back. A name that cannot be
resolved ends the walk; what the visitor did before stays done.
-/

namespace ClassAccess.ClassFile

/-- What to do at each access word. The state `σ` is threaded through the calls. -/
structure Visitor (σ : Type) where
  visitHeader : (word : UInt16) → (name : String) → StateM σ UInt16
  visitField : (word : UInt16) → (name descriptor : String) → StateM σ UInt16
  visitMethod : (word : UInt16) → (name descriptor : String) → StateM σ UInt16
  visitNested : (word : UInt16) → (name : String) → StateM σ UInt16 := fun word _ => pure word
  visitEnd : StateM σ Unit := pure ()

/-- A walk with state `σ`, which survives a fault. -/
abbrev Walk (σ : Type) := ExceptT Fault (StateM σ)

/-- Ends the walk at a fault. -/
def Walk.resolve {σ α : Type} (value : Except Fault α) : Walk σ α := ExceptT.mk (pure value)

variable {σ : Type}

/-- Visits a field or a method. -/
def walkMember (pool : Pool) (visit : UInt16 → String → String → StateM σ UInt16)
    (member : Member) : Walk σ Member := do
  let name ← Walk.resolve (pool.text member.name)
  let descriptor ← Walk.resolve (pool.text member.descriptor)
  let access ← visit member.access name descriptor
  return { member with access }

/-- Visits an entry of an `InnerClasses` attribute. -/
def walkNested (pool : Pool) (visitor : Visitor σ) (entry : NestedClass) : Walk σ NestedClass := do
  let name ← Walk.resolve (pool.className entry.self)
  let access ← visitor.visitNested entry.access name
  return { entry with access }

/-- Visits the entries of an attribute, if it holds nested classes. Its bytes are written anew
only when one of the access words changed. -/
def walkAttribute (pool : Pool) (visitor : Visitor σ) (block : Attribute) :
    Walk σ Attribute := do
  let name ← Walk.resolve (pool.text block.name)
  if name ≠ NestedClass.attributeName then return block
  let entries ← Walk.resolve (NestedClass.ofInfo block.info)
  let visited ← entries.mapM (walkNested pool visitor)
  if visited = entries then return block
  return { block with info := NestedClass.toInfo visited }

/-- Walks a class and returns it with the answers of the visitor in place. -/
def accept (file : ClassFile) (visitor : Visitor σ) : Walk σ ClassFile := do
  let pool := file.constants
  let name ← Walk.resolve file.name
  let access ← visitor.visitHeader file.access name
  let fields ← file.fields.mapM (walkMember pool visitor.visitField)
  let methods ← file.methods.mapM (walkMember pool visitor.visitMethod)
  let attributes ← file.attributes.mapM (walkAttribute pool visitor)
  visitor.visitEnd
  return { file with access, fields, methods, attributes }

/-- Reads a class, walks it and writes it. -/
def visit (bytes : List UInt8) (visitor : Visitor σ) : Walk σ (List UInt8) := do
  let file ← Walk.resolve (parse bytes)
  let visited ← file.accept visitor
  return visited.toBytes

end ClassAccess.ClassFile
