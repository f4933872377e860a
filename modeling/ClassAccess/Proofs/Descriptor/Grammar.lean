import ClassAccess.Proofs.Descriptor.PrefixCode
import Mathlib.Data.Set.List

/-!
# The grammar of descriptors

    base       = "B" | "C" | "D" | "F" | "I" | "J" | "S" | "Z"
    type       = base | "L" name ";" | "[" type
    signature  = "(" type* ")" (type | "V")

The grammar is stated on texts alone. Types count the brackets of an array, while
the grammar puts one bracket in front of any type; `FieldType.isText_iff` and
`MethodType.isText_iff` say that this comes to the same texts.
-/

namespace ClassAccess

namespace FieldType

/-- The texts of types. -/
inductive IsText : List Char → Prop where
  | base {letter : Char} (among : letter ∈ ['B', 'C', 'D', 'F', 'I', 'J', 'S', 'Z']) :
      IsText [letter]
  | object {name : List Char} (named : BinaryName.IsText name) : IsText ('L' :: name ++ [';'])
  | array {element : List Char} (typed : IsText element) : IsText ('[' :: element)

/-- The letters of the grammar are those of the primitive types. -/
theorem mem_letters_iff {letter : Char} :
    letter ∈ ['B', 'C', 'D', 'F', 'I', 'J', 'S', 'Z'] ↔ ∃ type : BaseType, letter = type.letter := by
  have letters : ['B', 'C', 'D', 'F', 'I', 'J', 'S', 'Z'] = BaseType.all.map BaseType.letter := rfl
  rw [letters, List.mem_map]
  constructor
  · rintro ⟨type, -, same⟩
    exact ⟨type, same.symm⟩
  · rintro ⟨type, rfl⟩
    exact ⟨type, by cases type <;> decide, rfl⟩

/-- The type of arrays whose elements have a type. -/
def arrayOf : FieldType → FieldType
  | base type => ref (.primitiveArray 0 type)
  | ref (.object name) => ref (.objectArray 0 name)
  | ref (.objectArray extra element) => ref (.objectArray (extra + 1) element)
  | ref (.primitiveArray extra element) => ref (.primitiveArray (extra + 1) element)

/-- An array is written as its elements with one more bracket. -/
theorem render_arrayOf (type : FieldType) : type.arrayOf.render = '[' :: type.render := by
  match type with
  | base _ => rfl
  | ref (.object _) => rfl
  | ref (.objectArray _ _) => rfl
  | ref (.primitiveArray _ _) => rfl

/-- Brackets in front of a type make a type. -/
theorem IsText.brackets {element : List Char} (typed : IsText element) (count : Nat) :
    IsText (List.replicate count '[' ++ element) := by
  induction count with
  | zero => exact typed
  | succ count ih => exact .array ih

/-- The grammar has the texts of types and no others. -/
theorem isText_iff {text : List Char} : IsText text ↔ ∃ type : FieldType, text = type.render := by
  constructor
  · intro typed
    induction typed with
    | base among =>
        obtain ⟨type, rfl⟩ := mem_letters_iff.mp among
        exact ⟨base type, rfl⟩
    | object named =>
        obtain ⟨name, rfl⟩ := named.exists_name
        exact ⟨ref (.object name), rfl⟩
    | array _ ih =>
        obtain ⟨type, rfl⟩ := ih
        exact ⟨type.arrayOf, type.render_arrayOf.symm⟩
  · rintro ⟨type, rfl⟩
    match type with
    | base type => exact .base (mem_letters_iff.mpr ⟨type, rfl⟩)
    | ref (.object name) => exact .object name.isText
    | ref (.objectArray extra name) => exact (IsText.object name.isText).brackets (extra + 1)
    | ref (.primitiveArray extra type) =>
        exact (IsText.base (mem_letters_iff.mpr ⟨type, rfl⟩)).brackets (extra + 1)

end FieldType

namespace MethodType

/-- The texts of signatures, each with the text of its result. -/
inductive IsText : List Char → List Char → Prop where
  | signature {parameters : List (List Char)} {result : List Char}
      (each : ∀ parameter ∈ parameters, FieldType.IsText parameter)
      (returned : result = ['V'] ∨ FieldType.IsText result) :
      IsText ('(' :: parameters.flatten ++ ')' :: result) result

/-- Only without a result the text of the result is that of `void`. -/
theorem renderResult_eq_void_iff {result : Option FieldType} :
    renderResult result = ['V'] ↔ result = none := by
  cases result with
  | none => simp [renderResult]
  | some type =>
      obtain ⟨first, later, written, -, notVoid⟩ := type.exists_render_cons
      simp [renderResult, written, notVoid]

/-- The grammar has the texts of signatures and no others. -/
theorem isText_iff {text result : List Char} :
    IsText text result ↔
      ∃ signature : MethodType, text = signature.render ∧
        result = renderResult signature.result := by
  constructor
  · rintro @⟨parameters, _, each, returned⟩
    have typed : ∀ parameter ∈ parameters, parameter ∈ Set.range FieldType.render := by
      intro parameter held
      obtain ⟨type, written⟩ := FieldType.isText_iff.mp (each parameter held)
      exact ⟨type, written.symm⟩
    obtain ⟨types, rfl⟩ := (Set.range_list_map FieldType.render).ge typed
    rcases returned with rfl | typed
    · exact ⟨⟨types, none⟩, by rw [render, List.flatMap_def]; rfl, rfl⟩
    · obtain ⟨type, rfl⟩ := FieldType.isText_iff.mp typed
      exact ⟨⟨types, some type⟩, by rw [render, List.flatMap_def]; rfl, rfl⟩
  · rintro ⟨⟨parameters, returned⟩, rfl, rfl⟩
    have each : ∀ parameter ∈ parameters.map FieldType.render, FieldType.IsText parameter := by
      intro parameter held
      obtain ⟨type, -, rfl⟩ := List.mem_map.mp held
      exact FieldType.isText_iff.mpr ⟨type, rfl⟩
    rw [render, List.flatMap_def]
    refine .signature each ?_
    cases returned with
    | none => exact .inl rfl
    | some type => exact .inr (FieldType.isText_iff.mpr ⟨type, rfl⟩)

end MethodType

/-- A text is read as a signature, possibly one that has no result, when the grammar has it. -/
theorem Descriptor.exists_whole_readMethod_iff {text : List Char} {resultless : Prop} :
    (∃ signature, whole readMethod text = .ok signature ∧
        (resultless → signature.result = none)) ↔
      ∃ result, MethodType.IsText text result ∧ (resultless → result = ['V']) := by
  simp only [whole_eq_ok_iff_read, readMethod_eq_ok_iff, List.append_nil, MethodType.isText_iff,
    ← MethodType.renderResult_eq_void_iff]
  constructor
  · rintro ⟨signature, written, none⟩
    exact ⟨_, ⟨signature, written, rfl⟩, none⟩
  · rintro ⟨_, ⟨signature, written, rfl⟩, none⟩
    exact ⟨signature, written, none⟩

end ClassAccess
