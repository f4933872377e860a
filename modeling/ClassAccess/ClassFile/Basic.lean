import ClassAccess.ClassFile.Attribute
import ClassAccess.ClassFile.Pool
import ClassAccess.ClassFile.Version
import ClassAccess.Access.Word

/-!
# Class files

A class file as its parts, in stored order. Nothing is interpreted or resolved
when it is read, so writing a class file that was read gives back its bytes.
-/

namespace ClassAccess

namespace ClassFile

/-- A field or a method. -/
structure Member where
  access : UInt16
  name : UInt16
  descriptor : UInt16
  attributes : List Attribute
deriving DecidableEq, Repr

instance : Codec Member where
  write member :=
    write member.access ++ write member.name ++ write member.descriptor ++ write member.attributes
  read := do
    let access ← read
    let name ← read
    let descriptor ← read
    let attributes ← read
    return { access, name, descriptor, attributes }

end ClassFile

/-- The parts of a class file. -/
structure ClassFile where
  version : ClassFile.Version
  constants : ClassFile.Pool
  access : UInt16
  thisClass : UInt16
  superClass : UInt16
  interfaces : List UInt16
  fields : List ClassFile.Member
  methods : List ClassFile.Member
  attributes : List ClassFile.Attribute
deriving BEq, Repr

namespace ClassFile

/-- The number that every class file starts with. -/
def magic : UInt32 := 0xCAFEBABE

/-- The bytes of a class file. -/
def toBytes (file : ClassFile) : List UInt8 :=
  write magic ++ write file.version ++ write file.constants ++ write file.access
    ++ write file.thisClass ++ write file.superClass ++ write file.interfaces
    ++ write file.fields ++ write file.methods ++ write file.attributes

/-- Reads a class file from the front of some bytes. -/
def readPrefix : Reader ClassFile := do
  let number ← read
  if number ≠ magic then throw (.badMagic number)
  let version ← read
  let constants ← read
  let access ← read
  let thisClass ← read
  let superClass ← read
  let interfaces ← read
  let fields ← read
  let methods ← read
  let attributes ← read
  return { version, constants, access, thisClass, superClass, interfaces, fields, methods,
           attributes }

instance : Codec ClassFile where
  write := toBytes
  read := readPrefix

/-- Reads a class file that takes up all of some bytes. -/
def parse (bytes : List UInt8) : Except Fault ClassFile := readWhole bytes

/-- The name of the class itself. -/
def name (file : ClassFile) : Except Fault String := file.constants.className file.thisClass

/-- Whether the header is marked as that of an interface. -/
def isInterface (file : ClassFile) : Bool := file.access &&& interfaceBit = interfaceBit

end ClassFile

end ClassAccess
