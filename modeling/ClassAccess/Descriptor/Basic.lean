import ClassAccess.Name

/-!
# Descriptors

A descriptor is the compact text of the type of a field or of the signature of a
method. This module holds the types and their texts; `Descriptor.Reader` reads
them back.
-/

namespace ClassAccess

/-- A primitive type of values. -/
inductive BaseType where
  | byte
  | char
  | double
  | float
  | int
  | long
  | short
  | boolean
deriving DecidableEq, Repr

namespace BaseType

/-- Every primitive type. -/
def all : List BaseType := [byte, char, double, float, int, long, short, boolean]

/-- The letter of a primitive type. -/
def letter : BaseType → Char
  | byte => 'B'
  | char => 'C'
  | double => 'D'
  | float => 'F'
  | int => 'I'
  | long => 'J'
  | short => 'S'
  | boolean => 'Z'

/-- The primitive type with a letter. -/
def ofLetter? (c : Char) : Option BaseType :=
  all.find? fun base => base.letter == c

/-- The text of a primitive type. -/
def render (base : BaseType) : List Char := [base.letter]

/-- Letters stand for their types. -/
@[simp] theorem ofLetter?_letter (base : BaseType) : ofLetter? base.letter = some base := by
  cases base <;> decide

end BaseType

/-- The text of a class type: its name between `L` and `;`. -/
def BinaryName.render (name : BinaryName) : List Char :=
  'L' :: name.text.toList ++ [';']

/-- A class type or an array type. Arrays say how many dimensions they have beyond the
first. -/
inductive RefType where
  | object (name : BinaryName)
  | objectArray (additionalDimensions : Nat) (element : BinaryName)
  | primitiveArray (additionalDimensions : Nat) (element : BaseType)
deriving DecidableEq, Repr

namespace RefType

/-- The text of a reference type: one bracket a dimension, then the element. -/
def render : RefType → List Char
  | object name => name.render
  | objectArray extra element => List.replicate (extra + 1) '[' ++ element.render
  | primitiveArray extra element => List.replicate (extra + 1) '[' ++ element.render

end RefType

/-- The type of a field, parameter or result. -/
inductive FieldType where
  | base (type : BaseType)
  | ref (type : RefType)
deriving DecidableEq, Repr

namespace FieldType

/-- The text of a type. -/
def render : FieldType → List Char
  | base type => type.render
  | ref type => type.render

end FieldType

/-- The signature of a method; without a result it is `void`. -/
structure MethodType where
  parameters : List FieldType
  result : Option FieldType
deriving DecidableEq, Repr

namespace MethodType

/-- The text of a result type. -/
def renderResult : Option FieldType → List Char
  | none => ['V']
  | some type => type.render

/-- The text of a signature: the parameters in parentheses, then the result. -/
def render (signature : MethodType) : List Char :=
  '(' :: signature.parameters.flatMap FieldType.render ++ ')' :: renderResult signature.result

end MethodType

end ClassAccess
