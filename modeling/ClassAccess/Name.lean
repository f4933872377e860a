import ClassAccess.Text.Split

/-!
# Class and member names

An unqualified name is a non-empty text without the characters `. ; [ /`. A
binary name is one or more unqualified names joined by `/`. Both types carry the
fact that their text passed its check, so that a value is always a valid name.
-/

namespace ClassAccess

/-- Why a text is not a name. -/
inductive NameFault where
  | illegalCharacter (name : String)
  | emptyUnqualified
  | emptyBinary
deriving DecidableEq, Repr

namespace NameFault

/-- The wording of a fault. -/
def message : NameFault → String
  | illegalCharacter name => "Unqualified name '" ++ name ++ "' contains an illegal character"
  | emptyUnqualified => "Unqualified name '' is empty"
  | emptyBinary => "Binary name '' is empty"

end NameFault

/-- The characters that no unqualified name contains. -/
def isReserved (c : Char) : Bool :=
  c == '.' || c == ';' || c == '[' || c == '/'

namespace UnqualifiedName

/-- The fault of a text as an unqualified name, if there is one. -/
def fault? (text : List Char) : Option NameFault :=
  if text.any isReserved then some (.illegalCharacter (String.ofList text))
  else if text.isEmpty then some .emptyUnqualified
  else none

end UnqualifiedName

/-- A valid name of a field, method or single class. -/
structure UnqualifiedName where
  text : String
  valid : UnqualifiedName.fault? text.toList = none
deriving DecidableEq

namespace UnqualifiedName

instance : Repr UnqualifiedName where
  reprPrec name prec := reprPrec name.text prec

/-- Checks a text. -/
def ofString (text : String) : Except NameFault UnqualifiedName :=
  match h : fault? text.toList with
  | none => .ok ⟨text, h⟩
  | some fault => .error fault

/-- A text that passes its check becomes the name with that text. -/
theorem ofString_eq_ok_iff {text : String} {name : UnqualifiedName} :
    ofString text = .ok name ↔ name.text = text := by
  unfold ofString
  split
  · next passed =>
      constructor
      · intro equal
        cases equal
        rfl
      · rintro rfl
        rfl
  · next fault failed =>
      constructor
      · intro equal
        cases equal
      · rintro rfl
        rw [name.valid] at failed
        cases failed

/-- The name of constructors. -/
def constructor : UnqualifiedName := ⟨"<init>", by decide⟩

/-- The name of static initializers. -/
def staticInitializer : UnqualifiedName := ⟨"<clinit>", by decide⟩

/-- Whether a name is one of the two that only methods bear. -/
def isSpecial (name : UnqualifiedName) : Bool :=
  name = constructor || name = staticInitializer

/-- Whether a character is an angle bracket. -/
def isAngle (c : Char) : Bool :=
  c == '<' || c == '>'

/-- Whether a method may bear a name: angle brackets occur in special names only. -/
def isMethodName (name : UnqualifiedName) : Bool :=
  name.isSpecial || !name.text.toList.any isAngle

end UnqualifiedName

namespace BinaryName

/-- The unqualified parts of a text. -/
def segments (text : List Char) : List (List Char) :=
  Text.pieces (· == '/') text

/-- The fault of a text as a binary name: that of its first faulty segment. -/
def fault? (text : List Char) : Option NameFault :=
  if text.isEmpty then some .emptyBinary
  else (segments text).findSome? UnqualifiedName.fault?

end BinaryName

/-- A valid name of a class with its package, in internal form. -/
structure BinaryName where
  text : String
  valid : BinaryName.fault? text.toList = none
deriving DecidableEq

namespace BinaryName

instance : Repr BinaryName where
  reprPrec name prec := reprPrec name.text prec

/-- Checks a text in internal form. -/
def ofString (text : String) : Except NameFault BinaryName :=
  match h : fault? text.toList with
  | none => .ok ⟨text, h⟩
  | some fault => .error fault

/-- A text that passes its check becomes the name with that text. -/
theorem ofString_eq_ok_iff {text : String} {name : BinaryName} :
    ofString text = .ok name ↔ name.text = text := by
  unfold ofString
  split
  · next passed =>
      constructor
      · intro equal
        cases equal
        rfl
      · rintro rfl
        rfl
  · next fault failed =>
      constructor
      · intro equal
        cases equal
      · rintro rfl
        rw [name.valid] at failed
        cases failed

/-- The internal form of a class name that is written with `.` or `/`. -/
def internalForm (text : List Char) : List Char :=
  text.map fun c => if c == '.' then '/' else c

/-- Checks a text in internal form or in source form. -/
def ofQualified (text : String) : Except NameFault BinaryName :=
  ofString (String.ofList (internalForm text.toList))

/-- The root of the class hierarchy. -/
def object : BinaryName := ⟨"java/lang/Object", by decide⟩

/-- The class of text values. -/
def string : BinaryName := ⟨"java/lang/String", by decide⟩

/-- Whether a name is one of the two that every program uses. -/
def isWellKnown (name : BinaryName) : Bool :=
  name = object || name = string

end BinaryName

end ClassAccess
