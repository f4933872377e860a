import ClassAccess.ClassFile.Codec

/-!
# Attributes

An attribute is the slot of a name and some bytes, which are kept unread.
-/

namespace ClassAccess.ClassFile

/-- A named block of bytes. -/
structure Attribute where
  name : UInt16
  info : List UInt8
deriving DecidableEq, Repr

/-- The length of the bytes is stored in four bytes, reduced modulo 2^32. -/
instance : Codec Attribute where
  write block :=
    write block.name ++ write (UInt32.ofNat block.info.length) ++ block.info
  read := do
    let name ← read
    let size : UInt32 ← read
    let info ← readBytes size.toNat
    return { name, info }

end ClassAccess.ClassFile
