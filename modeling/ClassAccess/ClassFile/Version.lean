import ClassAccess.ClassFile.Codec

/-!
# Class file versions

The version says which features a virtual machine needs to run the class. It is
stored with the minor part first and ordered by the major part first.
-/

namespace ClassAccess.ClassFile

/-- A version of the class file format. -/
structure Version where
  major : UInt16
  minor : UInt16
deriving DecidableEq, Repr

namespace Version

/-- The version of Java SE 8. -/
def java8 : Version := ⟨52, 0⟩

/-- The version of Java SE 17. -/
def java17 : Version := ⟨61, 0⟩

instance : Codec Version where
  write version := write version.minor ++ write version.major
  read := do
    let minor ← read
    let major ← read
    return { major, minor }

/-- Later versions are greater; the minor part decides between equal major parts. -/
instance : Ord Version where
  compare left right := (compare left.major right.major).then (compare left.minor right.minor)

end Version

end ClassAccess.ClassFile
