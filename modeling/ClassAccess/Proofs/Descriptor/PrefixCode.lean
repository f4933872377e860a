import ClassAccess.Descriptor.Reader
import ClassAccess.Proofs.Fallible
import ClassAccess.Proofs.Name

/-!
# Descriptors as a prefix code

A reader of descriptors takes the text of a descriptor, whatever follows it, and
takes nothing else. `readMethod_eq_ok_iff` and its companions for the kinds of
types say this of one reader each. So a descriptor has one text only, and that of
a first descriptor never runs on into what stands behind it.

Names are valid by their type. Faults are not described here.
-/

namespace ClassAccess

/-- The terminator of class types occurs in no name. -/
theorem BinaryName.unterminated (name : BinaryName) : ∀ c ∈ name.text.toList, c ≠ ';' := by
  rintro c held rfl
  have impossible := not_isReserved_of_mem held (by decide)
  cases impossible

/-- A letter stands for the primitive type that has it. -/
theorem BaseType.ofLetter?_eq_some_iff {c : Char} {base : BaseType} :
    ofLetter? c = some base ↔ c = base.letter := by
  constructor
  · intro found
    have held := List.find?_some found
    exact (beq_iff_eq.mp held).symm
  · rintro rfl
    exact ofLetter?_letter base

/-- The letter of a primitive type starts no other descriptor and ends no parameters. -/
theorem BaseType.letter_plain (base : BaseType) :
    base.letter ≠ 'L' ∧ base.letter ≠ '[' ∧ base.letter ≠ ')' ∧ base.letter ≠ 'V' := by
  cases base <;> decide

/-- A reference type starts with one of two characters. -/
theorem RefType.exists_render_cons (type : RefType) :
    ∃ first later, type.render = first :: later ∧ (first = 'L' ∨ first = '[') := by
  cases type with
  | object name => exact ⟨'L', _, rfl, .inl rfl⟩
  | objectArray extra element => exact ⟨'[', _, rfl, .inr rfl⟩
  | primitiveArray extra element => exact ⟨'[', _, rfl, .inr rfl⟩

/-- The type of a field starts neither as the end of parameters nor as the missing result. -/
theorem FieldType.exists_render_cons (type : FieldType) :
    ∃ first later, type.render = first :: later ∧ first ≠ ')' ∧ first ≠ 'V' := by
  cases type with
  | base base => exact ⟨base.letter, [], rfl, base.letter_plain.2.2⟩
  | ref type =>
      obtain ⟨first, later, written, rfl | rfl⟩ := type.exists_render_cons
      · exact ⟨'L', later, written, by decide, by decide⟩
      · exact ⟨'[', later, written, by decide, by decide⟩

namespace Descriptor

/-- Mapping a success leaves what was left, and mapping makes no success of a fault. -/
theorem Outcome.map_eq_ok_iff {α β : Type} {f : α → β} {outcome : Outcome α} {b : β}
    {rest : List Char} :
    outcome.map f = (.ok b, rest) ↔ ∃ a, outcome = (.ok a, rest) ∧ f a = b := by
  constructor
  · exact Outcome.map_eq_ok
  · rintro ⟨a, rfl, rfl⟩
    rfl

variable {input rest : List Char}

/-- A primitive type is read from its letter. -/
theorem readBase_eq_ok_iff {base : BaseType} :
    readBase input = (.ok base, rest) ↔ input = base.render ++ rest := by
  rw [BaseType.render, List.singleton_append]
  cases input with
  | nil => simp [readBase]
  | cons c later =>
      rw [List.cons.injEq, ← BaseType.ofLetter?_eq_some_iff, readBase]
      cases BaseType.ofLetter? c <;> simp

/-- A name is read up to the first terminator. -/
theorem readName_eq_ok_iff {name : BinaryName} :
    readName input = (.ok name, rest) ↔ input = name.text.toList ++ ';' :: rest := by
  constructor
  · intro read
    obtain ⟨front, later, rfl, passes, stops⟩ := Text.exists_cut (· != ';') input
    obtain ⟨taken, dropped⟩ := Text.takeWhile_dropWhile_append _ passes stops
    rw [readName, taken, dropped] at read
    cases later with
    | nil => cases read
    | cons c later =>
        have terminator : c = ';' := by simpa using stops c rfl
        rw [Prod.mk.injEq, mapError_eq_ok_iff, BinaryName.ofString_ofList_eq_ok_iff] at read
        rw [read.1, read.2, terminator]
  · rintro rfl
    have passes : ∀ c ∈ name.text.toList, (c != ';') = true :=
      fun c held => bne_iff_ne.mpr (name.unterminated c held)
    have stops : ∀ c ∈ (';' :: rest).head?, (c != ';') = false := by simp
    obtain ⟨taken, dropped⟩ := Text.takeWhile_dropWhile_append _ passes stops
    rw [readName, taken, dropped, Prod.mk.injEq, mapError_eq_ok_iff,
      BinaryName.ofString_ofList_eq_ok_iff]
    exact ⟨rfl, rfl⟩

/-- A class type is read from its letter, its name and the terminator. -/
theorem readObject_eq_ok_iff {name : BinaryName} :
    readObject input = (.ok name, rest) ↔ input = name.render ++ rest := by
  rw [BinaryName.render, List.append_assoc, List.singleton_append, List.cons_append]
  unfold readObject
  split
  · simp
  · next later => rw [readName_eq_ok_iff, List.cons.injEq, eq_self_iff_true, true_and]
  · next c later other =>
      simp only [Prod.mk.injEq, reduceCtorEq, false_and, false_iff, List.cons.injEq, not_and]
      exact fun same => absurd same other

/-- An element is a class or a primitive type. -/
theorem readElement_eq_ok_iff {extra : Nat} {type : RefType} :
    readElement extra input = (.ok type, rest) ↔
      (∃ name : BinaryName, type = .objectArray extra name ∧ input = name.render ++ rest) ∨
        ∃ base : BaseType, type = .primitiveArray extra base ∧ input = base.render ++ rest := by
  unfold readElement
  split
  · next later =>
      rw [Outcome.map_eq_ok_iff]
      simp only [readObject_eq_ok_iff]
      constructor
      · rintro ⟨name, written, rfl⟩
        exact .inl ⟨name, rfl, written⟩
      · rintro (⟨name, rfl, written⟩ | ⟨base, -, written⟩)
        · exact ⟨name, written, rfl⟩
        · exact absurd (List.cons.inj written).1.symm base.letter_plain.1
  · next other =>
      rw [Outcome.map_eq_ok_iff]
      simp only [readBase_eq_ok_iff]
      constructor
      · rintro ⟨base, written, rfl⟩
        exact .inr ⟨base, rfl, written⟩
      · rintro (⟨name, -, written⟩ | ⟨base, rfl, written⟩)
        · exact absurd written (other _)
        · exact ⟨base, written, rfl⟩

/-- Brackets in front of what starts with none are the dimensions of an array. -/
theorem readRef_brackets {extra : Nat} {element : List Char}
    (stops : ∀ c ∈ element.head?, (c == '[') = false) :
    readRef (List.replicate (extra + 1) '[' ++ element) = readElement extra element := by
  have passes : ∀ c ∈ List.replicate extra '[', (c == '[') = true :=
    fun c held => beq_iff_eq.mpr (List.eq_of_mem_replicate held)
  obtain ⟨taken, dropped⟩ := Text.takeWhile_dropWhile_append _ passes stops
  rw [List.replicate_succ, List.cons_append, readRef, taken, dropped, List.length_replicate]

/-- Every text is some brackets and what starts with none. -/
theorem exists_brackets (input : List Char) :
    ∃ extra element, input = List.replicate extra '[' ++ element ∧
      ∀ c ∈ element.head?, (c == '[') = false := by
  obtain ⟨front, element, rfl, passes, stops⟩ := Text.exists_cut (· == '[') input
  have brackets : front = List.replicate front.length '[' :=
    List.eq_replicate_of_mem fun c held => beq_iff_eq.mp (passes c held)
  exact ⟨front.length, element, by rw [← brackets], stops⟩

/-- A reference type is read from its text. -/
theorem readRef_eq_ok_iff {type : RefType} :
    readRef input = (.ok type, rest) ↔ input = type.render ++ rest := by
  constructor
  · intro read
    unfold readRef at read
    split at read
    · cases read
    · obtain ⟨name, object, rfl⟩ := Outcome.map_eq_ok read
      exact readObject_eq_ok_iff.mp object
    · next later =>
        change readRef ('[' :: later) = _ at read
        obtain ⟨extra, element, rfl, stops⟩ := exists_brackets later
        rw [← List.cons_append, ← List.replicate_succ] at read ⊢
        rw [readRef_brackets stops, readElement_eq_ok_iff] at read
        rcases read with ⟨name, rfl, rfl⟩ | ⟨base, rfl, rfl⟩
        · exact (List.append_assoc _ _ _).symm
        · exact (List.append_assoc _ _ _).symm
    · cases read
  · rintro rfl
    cases type with
    | object name =>
        change (readObject (name.render ++ rest)).map RefType.object = _
        rw [readObject_eq_ok_iff.mpr rfl]
        rfl
    | objectArray extra name =>
        rw [RefType.render, List.append_assoc, readRef_brackets (by simp [BinaryName.render])]
        exact readElement_eq_ok_iff.mpr (.inl ⟨name, rfl, rfl⟩)
    | primitiveArray extra base =>
        have stops : ∀ c ∈ (base.render ++ rest).head?, (c == '[') = false := by
          simpa [BaseType.render] using base.letter_plain.2.1
        rw [RefType.render, List.append_assoc, readRef_brackets stops]
        exact readElement_eq_ok_iff.mpr (.inr ⟨base, rfl, rfl⟩)

/-- The type of a field is read from its text. -/
theorem readField_eq_ok_iff {type : FieldType} :
    readField input = (.ok type, rest) ↔ input = type.render ++ rest := by
  constructor
  · intro read
    unfold readField at read
    split at read
    · cases read
    · split at read
      · next base letter =>
          cases read
          rw [BaseType.ofLetter?_eq_some_iff.mp letter]
          rfl
      · obtain ⟨type, ref, rfl⟩ := Outcome.map_eq_ok read
        exact readRef_eq_ok_iff.mp ref
  · rintro rfl
    cases type with
    | base base =>
        change readField (base.letter :: rest) = _
        rw [readField, BaseType.ofLetter?_letter]
    | ref type =>
        obtain ⟨first, later, written, starts⟩ := type.exists_render_cons
        have unlettered : BaseType.ofLetter? first = none := by
          rcases starts with rfl | rfl <;> rfl
        have read : readRef (type.render ++ rest) = (.ok type, rest) := readRef_eq_ok_iff.mpr rfl
        rw [written, List.cons_append] at read
        rw [FieldType.render, written, List.cons_append, readField, unlettered]
        exact Outcome.map_eq_ok_iff.mpr ⟨type, read, rfl⟩

/-- A type in front of others is read as the next parameter. -/
theorem readParameters_render_append (done : List FieldType) (type : FieldType)
    (rest : List Char) :
    readParameters done (type.render ++ rest) = readParameters (type :: done) rest := by
  have head : readField (type.render ++ rest) = (.ok type, rest) := readField_eq_ok_iff.mpr rfl
  obtain ⟨first, later, written, unclosed, -⟩ := type.exists_render_cons
  rw [written, List.cons_append] at head ⊢
  rw [readParameters, if_neg unclosed]
  split
  · next same =>
      rw [head] at same
      cases same
      rfl
  · next same =>
      rw [head] at same
      cases same

/-- Types are read one after the other up to a closing parenthesis or the end. -/
theorem readParameters_flatMap_render (done types : List FieldType)
    (closed : ∀ c ∈ rest.head?, c = ')') :
    readParameters done (types.flatMap FieldType.render ++ rest) =
      (.ok (done.reverse ++ types), rest) := by
  induction types generalizing done with
  | nil =>
      rw [List.flatMap_nil, List.nil_append, List.append_nil]
      cases rest with
      | nil => rw [readParameters]
      | cons c later => rw [readParameters, if_pos (closed c rfl)]
  | cons type types ih =>
      rw [List.flatMap_cons, List.append_assoc, readParameters_render_append, ih,
        List.reverse_cons, List.append_assoc, List.singleton_append]

/-- What was read as parameters is their texts. -/
theorem eq_of_readParameters {done types : List FieldType}
    (read : readParameters done input = (.ok types, rest)) :
    ∃ added, types = done.reverse ++ added ∧ input = added.flatMap FieldType.render ++ rest := by
  fun_induction readParameters done input
  case case1 =>
    cases read
    exact ⟨[], by simp, rfl⟩
  case case2 =>
    cases read
    exact ⟨[], by simp, rfl⟩
  case case3 c tail unclosed type later head ih =>
    obtain ⟨added, rfl, rfl⟩ := ih read
    exact ⟨type :: added, by simp, by simp [readField_eq_ok_iff.mp head]⟩
  case case4 => cases read

/-- A result is read from its text. -/
theorem readResult_eq_ok_iff {result : Option FieldType} :
    readResult input = (.ok result, rest) ↔ input = MethodType.renderResult result ++ rest := by
  constructor
  · intro read
    unfold readResult at read
    split at read
    · cases read
      rfl
    · obtain ⟨type, field, rfl⟩ := Outcome.map_eq_ok read
      exact readField_eq_ok_iff.mp field
  · rintro rfl
    cases result with
    | none => rfl
    | some type =>
        have read : readField (type.render ++ rest) = (.ok type, rest) :=
          readField_eq_ok_iff.mpr rfl
        obtain ⟨first, later, written, -, notVoid⟩ := type.exists_render_cons
        rw [MethodType.renderResult]
        unfold readResult
        split
        · next same =>
            rw [written] at same
            exact absurd (List.cons.inj same).1 notVoid
        · rw [read]
          rfl

/-- A signature is read from its text. -/
theorem readMethod_eq_ok_iff {signature : MethodType} :
    readMethod input = (.ok signature, rest) ↔ input = signature.render ++ rest := by
  constructor
  · intro read
    unfold readMethod at read
    split at read
    · split at read
      · cases read
      · next parameters =>
          obtain ⟨types, rfl, written⟩ := eq_of_readParameters parameters
          obtain ⟨result, last, rfl⟩ := Outcome.map_eq_ok read
          rw [readResult_eq_ok_iff] at last
          simp [MethodType.render, written, last]
      · cases read
    · cases read
  · rintro rfl
    obtain ⟨parameters, result⟩ := signature
    have closed : ∀ c ∈ (')' :: (MethodType.renderResult result ++ rest)).head?, c = ')' := by simp
    have front := readParameters_flatMap_render [] parameters closed
    have shape : MethodType.render ⟨parameters, result⟩ ++ rest =
        '(' :: (parameters.flatMap FieldType.render ++
          ')' :: (MethodType.renderResult result ++ rest)) := by
      simp [MethodType.render]
    rw [shape, readMethod, front]
    exact Outcome.map_eq_ok_iff.mpr ⟨result, readResult_eq_ok_iff.mpr rfl, rfl⟩

/-- A reader that takes nothing but the texts of its results, together with what this means for
texts that are read as a whole. -/
structure IsPrefixCode {α : Type} (render : α → List Char) (read : List Char → Outcome α) :
    Prop where
  /-- The text of a result is taken, whatever follows it, and what follows is left. -/
  read_render : ∀ type rest, read (render type ++ rest) = (.ok type, rest)
  /-- What was taken is the text of the result. -/
  eq_of_read : ∀ input type rest, read input = (.ok type, rest) → input = render type ++ rest
  /-- As a whole only texts of results are read. -/
  whole_eq_ok_iff : ∀ text type, whole read text = .ok type ↔ text = render type
  /-- Different texts have different results. -/
  eq_of_whole : ∀ text other type,
    whole read text = .ok type → whole read other = .ok type → text = other

/-- A text is read as a whole when nothing of it is left. -/
theorem whole_eq_ok_iff_read {α : Type} {read : List Char → Outcome α} {type : α} :
    whole read input = .ok type ↔ read input = (.ok type, []) := by
  unfold whole
  split
  · next same => simp [same]
  · next same => simp [same]
  · next same => simp [same]

/-- What one law says of a reader is all that a prefix code needs. -/
theorem IsPrefixCode.of_read_iff {α : Type} {render : α → List Char}
    {read : List Char → Outcome α}
    (law : ∀ {input rest : List Char} {type : α},
      read input = (.ok type, rest) ↔ input = render type ++ rest) :
    IsPrefixCode render read := by
  have whole_iff : ∀ text type, whole read text = .ok type ↔ text = render type := by
    intro text type
    rw [whole_eq_ok_iff_read, law, List.append_nil]
  exact {
    read_render := fun _ _ => law.mpr rfl
    eq_of_read := fun _ _ _ => law.mp
    whole_eq_ok_iff := whole_iff
    eq_of_whole := by
      intro text other type first second
      rw [(whole_iff text type).mp first, (whole_iff other type).mp second] }

/-- The texts of primitive types, class types, reference types, types of fields and signatures
are read back exactly, and no other texts are read as one of these. -/
theorem prefixCodes :
    IsPrefixCode BaseType.render readBase ∧ IsPrefixCode BinaryName.render readObject ∧
      IsPrefixCode RefType.render readRef ∧ IsPrefixCode FieldType.render readField ∧
      IsPrefixCode MethodType.render readMethod :=
  ⟨.of_read_iff readBase_eq_ok_iff, .of_read_iff readObject_eq_ok_iff,
    .of_read_iff readRef_eq_ok_iff, .of_read_iff readField_eq_ok_iff,
    .of_read_iff readMethod_eq_ok_iff⟩

/-- Brackets count as dimensions, and what follows a signature is left. -/
example : readMethod "([[ILa/b;)[Z!".toList =
    (.ok ⟨[.ref (.primitiveArray 1 .int), .ref (.object ⟨"a/b", by decide⟩)],
      some (.ref (.primitiveArray 0 .boolean))⟩, ['!']) := by
  cbv

end Descriptor

end ClassAccess
