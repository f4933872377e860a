import ClassAccess.Descriptor.Basic

/-!
# Reading descriptors

Every reader takes the characters in front of it and returns a type or a fault,
with the characters that it left. `whole` turns a reader into one that leaves
nothing. Each kind of type has one text only, so a reader that succeeds has
consumed exactly the text of its result.
-/

namespace ClassAccess

/-- Whether a descriptor is wrong or merely incomplete. -/
inductive DescriptorFaultKind where
  | invalid
  | incomplete
deriving DecidableEq, Repr

/-- Why a text is not a descriptor. -/
inductive DescriptorFault where
  | invalidBase (c : Char)
  | missingBase
  | notAnObject
  | unterminatedName (name : String)
  | badName (fault : NameFault)
  | invalidType (c : Char)
  | missingType
  | notAMethod
  | unclosedParameters
  | leftover (c : Char)
deriving DecidableEq, Repr

namespace DescriptorFault

/-- A fault is incomplete when the text ended too early. -/
def kind : DescriptorFault → DescriptorFaultKind
  | missingBase => .incomplete
  | unterminatedName _ => .incomplete
  | missingType => .incomplete
  | unclosedParameters => .incomplete
  | invalidBase _ => .invalid
  | notAnObject => .invalid
  | badName _ => .invalid
  | invalidType _ => .invalid
  | notAMethod => .invalid
  | leftover _ => .invalid

/-- The wording of a fault. -/
def message : DescriptorFault → String
  | invalidBase c => "Invalid base type character '" ++ c.toString ++ "'"
  | missingBase => "Missing base type character"
  | notAnObject => "Expected object type to start with `L`"
  | unterminatedName name => "Missing terminator for 'L" ++ name ++ "'"
  | badName fault => fault.message
  | invalidType c => "Invalid reference type character '" ++ c.toString ++ "'"
  | missingType => "Missing field type"
  | notAMethod => "Expected '(' for method"
  | unclosedParameters => "Expected ')' for method"
  | leftover c => "Unexpected leftover input '" ++ c.toString ++ "'"

end DescriptorFault

namespace Descriptor

/-- What a reader returns: a result or a fault, and the characters left. -/
abbrev Outcome (α : Type) := Except DescriptorFault α × List Char

/-- Applies a function to the result of a reader. -/
def Outcome.map {α β : Type} (f : α → β) (outcome : Outcome α) : Outcome β :=
  (outcome.1.map f, outcome.2)

/-- Requires that a reader leaves nothing. -/
def whole {α : Type} (read : List Char → Outcome α) (input : List Char) :
    Except DescriptorFault α :=
  match read input with
  | (.ok type, []) => .ok type
  | (.ok _, c :: _) => .error (.leftover c)
  | (.error fault, _) => .error fault

/-- Reads one letter as a primitive type. A wrong letter is consumed too. -/
def readBase : List Char → Outcome BaseType
  | [] => (.error .missingBase, [])
  | c :: rest =>
      match BaseType.ofLetter? c with
      | some base => (.ok base, rest)
      | none => (.error (.invalidBase c), rest)

/-- Reads a name up to its terminating `;`. -/
def readName (input : List Char) : Outcome BinaryName :=
  let name := String.ofList (input.takeWhile (· != ';'))
  match input.dropWhile (· != ';') with
  | [] => (.error (.unterminatedName name), [])
  | _ :: rest => ((BinaryName.ofString name).mapError .badName, rest)

/-- Reads a class type. One character is consumed also when it is not an `L`. -/
def readObject : List Char → Outcome BinaryName
  | [] => (.error .notAnObject, [])
  | 'L' :: rest => readName rest
  | _ :: rest => (.error .notAnObject, rest)

/-- Reads the element of an array with some additional dimensions. -/
def readElement (extra : Nat) (input : List Char) : Outcome RefType :=
  match input with
  | 'L' :: _ => (readObject input).map (.objectArray extra)
  | _ => (readBase input).map (.primitiveArray extra)

/-- Reads a class type or an array type. -/
def readRef (input : List Char) : Outcome RefType :=
  match input with
  | [] => (.error .missingType, [])
  | 'L' :: _ => (readObject input).map .object
  | '[' :: rest =>
      readElement (rest.takeWhile (· == '[')).length (rest.dropWhile (· == '['))
  | c :: _ => (.error (.invalidType c), input)

/-- Reads the type of a field. -/
def readField (input : List Char) : Outcome FieldType :=
  match input with
  | [] => (.error .missingType, [])
  | c :: rest =>
      match BaseType.ofLetter? c with
      | some base => (.ok (.base base), rest)
      | none => (readRef input).map .ref

theorem length_dropWhile_le {α : Type} (p : α → Bool) (input : List α) :
    (input.dropWhile p).length ≤ input.length := by
  induction input with
  | nil => simp
  | cons a rest ih =>
      rw [List.dropWhile_cons]
      split <;> simp only [List.length_cons] <;> omega

/-- Reading a class type consumes something. -/
theorem length_readObject_lt {input rest : List Char} {name : BinaryName}
    (read : readObject input = (.ok name, rest)) : rest.length < input.length := by
  unfold readObject at read
  split at read
  · simp at read
  · next tail =>
      unfold readName at read
      have bound := length_dropWhile_le (· != ';') tail
      split at read
      · simp at read
      · next c after equal =>
          rw [equal] at bound
          simp only [Prod.mk.injEq] at read
          obtain ⟨_, rfl⟩ := read
          simp only [List.length_cons] at bound ⊢
          omega
  · simp at read

/-- Reading a primitive type consumes something. -/
theorem length_readBase_lt {input rest : List Char} {base : BaseType}
    (read : readBase input = (.ok base, rest)) : rest.length < input.length := by
  unfold readBase at read
  split at read
  · simp at read
  · split at read <;> simp at read
    obtain ⟨_, rfl⟩ := read
    simp

/-- A mapped outcome succeeds where the outcome does, and leaves the same. -/
theorem Outcome.map_eq_ok {α β : Type} {f : α → β} {outcome : Outcome α} {b : β}
    {rest : List Char} (mapped : outcome.map f = (.ok b, rest)) :
    ∃ a, outcome = (.ok a, rest) ∧ f a = b := by
  obtain ⟨result, left⟩ := outcome
  cases result with
  | error fault => simp [Outcome.map, Except.map] at mapped
  | ok a =>
      simp only [Outcome.map, Except.map, Prod.mk.injEq, Except.ok.injEq] at mapped
      exact ⟨a, by rw [mapped.2], mapped.1⟩

/-- Reading an array element consumes something. -/
theorem length_readElement_lt {extra : Nat} {input rest : List Char} {type : RefType}
    (read : readElement extra input = (.ok type, rest)) : rest.length < input.length := by
  unfold readElement at read
  split at read
  · obtain ⟨_, object, _⟩ := Outcome.map_eq_ok read
    exact length_readObject_lt object
  · obtain ⟨_, base, _⟩ := Outcome.map_eq_ok read
    exact length_readBase_lt base

/-- Reading a reference type consumes something. -/
theorem length_readRef_lt {input rest : List Char} {type : RefType}
    (read : readRef input = (.ok type, rest)) : rest.length < input.length := by
  unfold readRef at read
  split at read
  · simp at read
  · obtain ⟨_, object, _⟩ := Outcome.map_eq_ok read
    exact length_readObject_lt object
  · next tail =>
      have element := length_readElement_lt read
      have bound := length_dropWhile_le (· == '[') tail
      simp only [List.length_cons]
      omega
  · simp at read

/-- Reading the type of a field consumes something. -/
theorem length_readField_lt {input rest : List Char} {type : FieldType}
    (read : readField input = (.ok type, rest)) : rest.length < input.length := by
  unfold readField at read
  split at read
  · simp at read
  · split at read
    · simp only [Prod.mk.injEq] at read
      obtain ⟨_, rfl⟩ := read
      simp
    · obtain ⟨_, ref, _⟩ := Outcome.map_eq_ok read
      exact length_readRef_lt ref

/-- Reads types up to a closing parenthesis or the end, and puts them behind those already
read, which are kept in reverse. -/
def readParameters (done : List FieldType) (input : List Char) : Outcome (List FieldType) :=
  match input with
  | [] => (.ok done.reverse, [])
  | c :: tail =>
      if c = ')' then (.ok done.reverse, c :: tail)
      else
        match _ : readField (c :: tail) with
        | (.ok type, rest) => readParameters (type :: done) rest
        | (.error fault, rest) => (.error fault, rest)
termination_by input.length
decreasing_by exact length_readField_lt (by assumption)

/-- Reads the result of a signature. -/
def readResult (input : List Char) : Outcome (Option FieldType) :=
  match input with
  | 'V' :: rest => (.ok none, rest)
  | _ => (readField input).map some

/-- Reads a signature. -/
def readMethod (input : List Char) : Outcome MethodType :=
  match input with
  | '(' :: rest =>
      match readParameters [] rest with
      | (.error fault, rest) => (.error fault, rest)
      | (.ok parameters, ')' :: rest) => (readResult rest).map (.mk parameters)
      | (.ok _, rest) => (.error .unclosedParameters, rest)
  | _ => (.error .notAMethod, input)

end Descriptor

end ClassAccess
