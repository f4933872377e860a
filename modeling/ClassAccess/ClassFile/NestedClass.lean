import ClassAccess.ClassFile.Codec

/-!
# Nested classes

The attribute `InnerClasses` lists the nested classes that a class file refers
to, each with an access word of its own.
-/

namespace ClassAccess.ClassFile

/-- An entry of the attribute `InnerClasses`: a class, its outer class and its simple name, with
zero for those that it lacks, and its access word. -/
structure NestedClass where
  self : UInt16
  outer : UInt16
  simpleName : UInt16
  access : UInt16
deriving DecidableEq, Repr

namespace NestedClass

instance : Codec NestedClass where
  write entry :=
    write entry.self ++ write entry.outer ++ write entry.simpleName ++ write entry.access
  read := do
    let self ← read
    let outer ← read
    let simpleName ← read
    let access ← read
    return { self, outer, simpleName, access }

/-- The name of the attribute that holds the entries. -/
def attributeName : String := "InnerClasses"

/-- The bytes of the attribute with some entries. -/
def toInfo (entries : List NestedClass) : List UInt8 := write entries

/-- The entries in the bytes of the attribute, which they must take up. Any fault in them is one
of the attribute. -/
def ofInfo (info : List UInt8) : Except Fault (List NestedClass) :=
  (readWhole info).mapError fun _ => .malformedAttribute attributeName

end NestedClass

end ClassAccess.ClassFile
