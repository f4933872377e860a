import ClassAccess.Text.Hex

/-!
# Faults of class files

Everything that can be wrong with the bytes of a class file, or with a reference
from one part of it to another.
-/

namespace ClassAccess.ClassFile

/-- The kinds of constants that other parts of a class file refer to by name. -/
inductive ReferenceKind where
  | text
  | className
deriving DecidableEq, Repr

/-- The word for a kind of constant. -/
def ReferenceKind.label : ReferenceKind → String
  | text => "Utf8"
  | className => "Class"

/-- Why bytes are not a class file, or why a part of one cannot be used. -/
inductive Fault where
  | endOfInput
  | badMagic (magic : UInt32)
  | unknownTag (tag : UInt8) (slot : Nat)
  | poolOverrun (count : UInt16) (nextSlot : Nat)
  | badReference (slot : UInt16) (expected : ReferenceKind)
  | badHandleKind (code : UInt8)
  | badText (slot : UInt16)
  | malformedAttribute (name : String)
  | trailingBytes (count : Nat)
deriving DecidableEq, Repr

namespace Fault

/-- The wording for input that ends too early. -/
def endOfInputMessage : String := "failed to fill whole buffer"

/-- The wording of a fault. -/
def message : Fault → String
  | endOfInput => "I/O error: " ++ endOfInputMessage
  | badMagic magic => "Invalid magic " ++ Text.hexText 8 magic.toNat ++ ": not a class file"
  | unknownTag tag slot =>
      "Unknown constant pool tag " ++ toString tag.toNat ++ " at index " ++ toString slot
  | poolOverrun count nextSlot =>
      "Constant pool declares " ++ toString count.toNat ++ " slots but its entries end at "
        ++ toString nextSlot
  | badReference slot expected =>
      "Constant pool index " ++ toString slot.toNat ++ " is not a " ++ expected.label ++ " constant"
  | badHandleKind code => "Invalid method handle kind " ++ toString code.toNat
  | badText slot => "Invalid modified UTF-8 in constant " ++ toString slot.toNat
  | malformedAttribute name => "Malformed " ++ name ++ " attribute"
  | trailingBytes count => toString count ++ " unexpected trailing bytes after the class file"

end Fault

end ClassAccess.ClassFile
