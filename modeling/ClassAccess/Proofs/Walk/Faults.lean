import ClassAccess.Proofs.Walk.Accept

/-!
# The faults of class files

A walk takes its steps in a fixed order: the name of the class, then the names
and descriptors of the fields and of the methods, then the attributes, and in
those of nested classes the entries and their names. `faults` lists the faults of
these steps in this order, without a visitor. `Resolves` says of the parts of a
class file that none of these steps fails. A walk ends with the first fault of
the list whatever its visitor does.
-/

namespace ClassAccess

namespace ClassFile

/-- The faults of the names of a field or a method. -/
def memberFaults (pool : Pool) (member : Member) : List Fault :=
  faultsOf (pool.text member.name) ++ faultsOf (pool.text member.descriptor)

/-- The faults of an attribute. Only one of nested classes is looked into. -/
def attributeFaults (pool : Pool) (block : Attribute) : List Fault :=
  faultsThen (pool.text block.name) fun name =>
    if name ≠ NestedClass.attributeName then []
    else faultsThen (NestedClass.ofInfo block.info) fun entries =>
      entries.flatMap fun entry => faultsOf (pool.className entry.self)

/-- The faults of a class file, in the order of a walk. -/
def faults (file : ClassFile) : List Fault :=
  faultsOf file.name ++ file.fields.flatMap (memberFaults file.constants)
    ++ file.methods.flatMap (memberFaults file.constants)
    ++ file.attributes.flatMap (attributeFaults file.constants)

/-- All that a walk resolves can be resolved. -/
structure Resolves (file : ClassFile) : Prop where
  name : ∃ name, file.name = .ok name
  members : ∀ member ∈ file.fields ++ file.methods,
    (∃ name, file.constants.text member.name = .ok name) ∧
      ∃ descriptor, file.constants.text member.descriptor = .ok descriptor
  attributes : ∀ block ∈ file.attributes, ∃ name, file.constants.text block.name = .ok name ∧
    (name = NestedClass.attributeName → ∃ entries, NestedClass.ofInfo block.info = .ok entries ∧
      ∀ entry ∈ entries, ∃ inner, file.constants.className entry.self = .ok inner)

end ClassFile

end ClassAccess
