import ClassAccess.Proofs.Descriptor.PrefixCode
import Mathlib.Data.List.TakeWhile

/-!
# Descriptors that are cut off or continued

A reader tells a text that ended too early from one that is wrong. Whichever characters
are missing at the end of a descriptor, the fault says that it is incomplete, unless all
of them are missing: `readObject` and `readMethod` ask for a first character. Whatever
is put behind a descriptor is left over, and its first character is reported.

`IsCut` says that a text lacks some of its end. A cut lies in the first or in the second
part of a text that has two, and the proofs follow the parts of each kind of type.
-/

namespace ClassAccess

/-- A text with something missing at its end. -/
def IsCut (front text : List Char) : Prop := front <+: text ∧ front ≠ text

section IsCut

variable {front first second : List Char} {c : Char}

/-- Nothing can be missing from the empty text. -/
theorem not_isCut_nil : ¬IsCut front [] := fun cut => cut.2 (List.prefix_nil.mp cut.1)

/-- The start of two texts lacks some of the first one, or else goes on into the second one. -/
theorem cases_of_prefix_append (start : front <+: first ++ second) :
    IsCut front first ∨ ∃ later, front = first ++ later ∧ later <+: second := by
  obtain ⟨missing, whole⟩ := start
  rcases List.append_eq_append_iff.mp whole with ⟨later, rfl, -⟩ | ⟨later, rfl, rfl⟩
  · by_cases all : later = []
    · subst all
      exact .inr ⟨[], by simp, List.nil_prefix⟩
    · exact .inl
        ⟨List.prefix_append front later, fun same => all (List.self_eq_append_right.mp same)⟩
  · exact .inr ⟨later, rfl, List.prefix_append later missing⟩

/-- Of two texts, the first one is cut or else the second one is. -/
theorem IsCut.append_cases (cut : IsCut front (first ++ second)) :
    IsCut front first ∨ ∃ later, front = first ++ later ∧ IsCut later second := by
  obtain ⟨start, shorter⟩ := cut
  rcases cases_of_prefix_append start with early | ⟨later, rfl, behind⟩
  · exact .inl early
  · refine .inr ⟨later, rfl, behind, ?_⟩
    rintro rfl
    exact shorter rfl

/-- A text is cut before its first character or behind it. -/
theorem IsCut.cons_cases (cut : IsCut front (c :: second)) :
    front = [] ∨ ∃ later, front = c :: later ∧ IsCut later second := by
  obtain ⟨start, shorter⟩ := cut
  rcases List.prefix_cons_iff.mp start with rfl | ⟨later, rfl, behind⟩
  · exact .inl rfl
  · refine .inr ⟨later, rfl, behind, ?_⟩
    rintro rfl
    exact shorter rfl

/-- Nothing is left of a single character that is cut off. -/
theorem IsCut.eq_nil_of_singleton (cut : IsCut front [c]) : front = [] := by
  rcases cut.cons_cases with rfl | ⟨later, -, impossible⟩
  · rfl
  · exact absurd impossible not_isCut_nil

end IsCut

namespace Descriptor

/-- The fault of a reader that the text ended too early for. -/
def Outcome.IsIncomplete {α : Type} (outcome : Outcome α) : Prop :=
  ∃ fault left, outcome = (.error fault, left) ∧ fault.kind = .incomplete

/-- Putting the result into another form keeps the fault. -/
theorem Outcome.IsIncomplete.map {α β : Type} {outcome : Outcome α}
    (incomplete : outcome.IsIncomplete) (f : α → β) : (outcome.map f).IsIncomplete := by
  obtain ⟨fault, left, rfl, kind⟩ := incomplete
  exact ⟨fault, left, rfl, kind⟩

variable {front : List Char}

/-- A name without its terminator is incomplete. -/
theorem readName_isIncomplete (name : BinaryName) (cut : IsCut front (name.text.toList ++ [';'])) :
    (readName front).IsIncomplete := by
  have within : front <+: name.text.toList := by
    rcases cut.append_cases with early | ⟨later, rfl, last⟩
    · exact early.1
    · simp only [last.eq_nil_of_singleton, List.append_nil, List.prefix_rfl]
  have passes : ∀ c ∈ front, (c != ';') = true :=
    fun c held => bne_iff_ne.mpr (name.unterminated c (within.subset held))
  have dropped : front.dropWhile (· != ';') = [] := List.dropWhile_eq_nil_iff.mpr passes
  rw [readName, dropped]
  exact ⟨_, [], rfl, rfl⟩

/-- What is left of a class type is nothing, or its letter and an incomplete name. -/
theorem cases_of_isCut_object (name : BinaryName) (cut : IsCut front name.render) :
    front = [] ∨ ∃ later, front = 'L' :: later ∧ (readObject front).IsIncomplete := by
  rw [BinaryName.render, List.cons_append] at cut
  rcases cut.cons_cases with rfl | ⟨later, rfl, behind⟩
  · exact .inl rfl
  · exact .inr ⟨later, rfl, readName_isIncomplete name behind⟩

/-- An element of an array is incomplete also when nothing is left of it. -/
theorem readElement_isIncomplete (extra : Nat) {element : List Char}
    (typed : (∃ name : BinaryName, element = name.render) ∨ ∃ base : BaseType, element = base.render)
    (cut : IsCut front element) : (readElement extra front).IsIncomplete := by
  have nothing : (readElement extra []).IsIncomplete := ⟨.missingBase, [], rfl, rfl⟩
  rcases typed with ⟨name, rfl⟩ | ⟨base, rfl⟩
  · rcases cases_of_isCut_object name cut with rfl | ⟨later, rfl, incomplete⟩
    · exact nothing
    · exact incomplete.map (RefType.objectArray extra)
  · rw [cut.eq_nil_of_singleton]
    exact nothing

/-- An array type is incomplete wherever it is cut, be it between its brackets. -/
theorem readRef_isIncomplete_of_array {extra : Nat} {element : List Char}
    (typed : (∃ name : BinaryName, element = name.render) ∨ ∃ base : BaseType, element = base.render)
    (cut : IsCut front (List.replicate (extra + 1) '[' ++ element)) :
    (readRef front).IsIncomplete := by
  have stops : ∀ c ∈ element.head?, (c == '[') = false := by
    rcases typed with ⟨name, rfl⟩ | ⟨base, rfl⟩
    · simp [BinaryName.render]
    · simpa [BaseType.render] using base.letter_plain.2.1
  rcases cut.append_cases with ⟨start, -⟩ | ⟨later, rfl, behind⟩
  · rw [(List.prefix_replicate_iff.mp start).2]
    cases front.length with
    | zero => exact ⟨.missingType, [], rfl, rfl⟩
    | succ count =>
        rw [← List.append_nil (List.replicate (count + 1) '['), readRef_brackets (by simp)]
        exact ⟨.missingBase, [], rfl, rfl⟩
  · have stopsLater : ∀ c ∈ later.head?, (c == '[') = false := by
      obtain ⟨missing, rfl⟩ := behind.1
      intro c first
      exact stops c (by rw [List.head?_append, Option.mem_def.mp first]; rfl)
    rw [readRef_brackets stopsLater]
    exact readElement_isIncomplete extra typed behind

/-- A reference type is incomplete wherever it is cut. -/
theorem readRef_isIncomplete (type : RefType) (cut : IsCut front type.render) :
    (readRef front).IsIncomplete := by
  cases type with
  | object name =>
      rcases cases_of_isCut_object name cut with rfl | ⟨later, rfl, incomplete⟩
      · exact ⟨.missingType, [], rfl, rfl⟩
      · exact incomplete.map RefType.object
  | objectArray extra name => exact readRef_isIncomplete_of_array (.inl ⟨name, rfl⟩) cut
  | primitiveArray extra base => exact readRef_isIncomplete_of_array (.inr ⟨base, rfl⟩) cut

/-- The type of a field is incomplete wherever it is cut. -/
theorem readField_isIncomplete (type : FieldType) (cut : IsCut front type.render) :
    (readField front).IsIncomplete := by
  have nothing : (readField []).IsIncomplete := ⟨.missingType, [], rfl, rfl⟩
  cases type with
  | base base =>
      rw [cut.eq_nil_of_singleton]
      exact nothing
  | ref type =>
      have incomplete := (readRef_isIncomplete type cut).map FieldType.ref
      obtain ⟨first, later, written, starts⟩ := type.exists_render_cons
      rw [FieldType.render, written] at cut
      rcases cut.cons_cases with rfl | ⟨rest, rfl, -⟩
      · exact nothing
      · have unlettered : BaseType.ofLetter? first = none := by
          rcases starts with rfl | rfl <;> rfl
        rw [readField, unlettered]
        exact incomplete

/-- A result is incomplete wherever it is cut. -/
theorem readResult_isIncomplete (result : Option FieldType)
    (cut : IsCut front (MethodType.renderResult result)) : (readResult front).IsIncomplete := by
  have nothing : (readResult []).IsIncomplete := ⟨.missingType, [], rfl, rfl⟩
  cases result with
  | none =>
      rw [cut.eq_nil_of_singleton]
      exact nothing
  | some type =>
      have incomplete := (readField_isIncomplete type cut).map some
      obtain ⟨first, later, written, -, notVoid⟩ := type.exists_render_cons
      rw [MethodType.renderResult, written] at cut
      rcases cut.cons_cases with rfl | ⟨rest, rfl, -⟩
      · exact nothing
      · unfold readResult
        split
        · next same => exact absurd (List.cons.inj same).1 notVoid
        · exact incomplete

/-- A parameter that is incomplete ends the parameters, unless nothing is left of it. -/
theorem readParameters_isIncomplete (done : List FieldType) (type : FieldType)
    (filled : front ≠ []) (cut : IsCut front type.render) :
    (readParameters done front).IsIncomplete := by
  obtain ⟨fault, left, failed, kind⟩ := readField_isIncomplete type cut
  obtain ⟨first, later, written, unclosed, -⟩ := type.exists_render_cons
  rw [written] at cut
  rcases cut.cons_cases with rfl | ⟨rest, rfl, -⟩
  · exact absurd rfl filled
  · rw [readParameters, if_neg unclosed]
    split
    · next same =>
        rw [failed] at same
        cases same
    · next same =>
        rw [failed] at same
        cases same
        exact ⟨fault, left, rfl, kind⟩

/-- The start of some parameters is incomplete, or else it is some of the parameters. -/
theorem readParameters_cases (done types : List FieldType)
    (start : front <+: types.flatMap FieldType.render) :
    (readParameters done front).IsIncomplete ∨
      ∃ parameters, readParameters done front = (.ok parameters, []) := by
  have nothing : ∃ parameters, readParameters done [] = (.ok parameters, []) :=
    ⟨done.reverse, by rw [readParameters]⟩
  induction types generalizing done front with
  | nil =>
      rw [List.prefix_nil.mp start]
      exact .inr nothing
  | cons type types ih =>
      rw [List.flatMap_cons] at start
      rcases cases_of_prefix_append start with cut | ⟨later, rfl, behind⟩
      · by_cases empty : front = []
        · subst empty
          exact .inr nothing
        · exact .inl (readParameters_isIncomplete done type empty cut)
      · rw [readParameters_render_append]
        exact ih (type :: done) behind ⟨_, by rw [readParameters]⟩

/-- Without the closing parenthesis a signature is incomplete. -/
theorem readMethod_isIncomplete_of_unclosed (types : List FieldType)
    (start : front <+: types.flatMap FieldType.render) : (readMethod ('(' :: front)).IsIncomplete := by
  rw [readMethod]
  rcases readParameters_cases [] types start with ⟨fault, left, failed, kind⟩ | ⟨parameters, read⟩
  · rw [failed]
    exact ⟨fault, left, rfl, kind⟩
  · rw [read]
    exact ⟨.unclosedParameters, [], rfl, rfl⟩

/-- A signature is incomplete wherever it is cut, unless nothing is left of it. -/
theorem readMethod_isIncomplete (signature : MethodType) (filled : front ≠ [])
    (cut : IsCut front signature.render) : (readMethod front).IsIncomplete := by
  obtain ⟨types, result⟩ := signature
  rw [MethodType.render, List.cons_append] at cut
  rcases cut.cons_cases with rfl | ⟨later, rfl, behind⟩
  · exact absurd rfl filled
  rcases behind.append_cases with early | ⟨tail, rfl, late⟩
  · exact readMethod_isIncomplete_of_unclosed types early.1
  · rcases late.cons_cases with rfl | ⟨rest, rfl, last⟩
    · rw [List.append_nil]
      exact readMethod_isIncomplete_of_unclosed types List.prefix_rfl
    · rw [readMethod, readParameters_flatMap_render [] types (by simp)]
      exact (readResult_isIncomplete result last).map (MethodType.mk ([] ++ types))

/-- A reader that reports a text as incomplete when some of its end is missing, and the first
character of what stands behind it as left over. -/
structure TellsEnds {α : Type} (render : α → List Char) (read : List Char → Outcome α) : Prop where
  /-- A text that is cut off, but not all of it, is incomplete. -/
  cut : ∀ type front, front <+: render type → front ≠ render type → front ≠ [] →
    ∃ fault, whole read front = .error fault ∧ fault.kind = .incomplete
  /-- A text that is continued is invalid, and the first character behind it is named. -/
  continued : ∀ type c later, ∃ fault, whole read (render type ++ c :: later) = .error fault ∧
    fault.kind = .invalid ∧
      fault.message = "Unexpected leftover input '" ++ c.toString ++ "'"

/-- A reader that tells incomplete texts tells ends when what it reads is a prefix code. -/
theorem TellsEnds.of_isIncomplete {α : Type} {render : α → List Char}
    {read : List Char → Outcome α}
    (law : ∀ {input rest : List Char} {type : α},
      read input = (.ok type, rest) ↔ input = render type ++ rest)
    (incomplete : ∀ {front : List Char} (type : α), front ≠ [] → IsCut front (render type) →
      (read front).IsIncomplete) : TellsEnds render read where
  cut := by
    intro type front start shorter filled
    obtain ⟨fault, left, failed, kind⟩ := incomplete type filled ⟨start, shorter⟩
    exact ⟨fault, by rw [whole, failed], kind⟩
  continued := by
    intro type c later
    have taken : read (render type ++ c :: later) = (.ok type, c :: later) := law.mpr rfl
    exact ⟨.leftover c, by rw [whole, taken], rfl, rfl⟩

/-- Types of fields, reference types, class types and signatures are reported as incomplete
wherever they are cut off, and what is put behind them is reported by its first character. -/
theorem tellEnds :
    TellsEnds FieldType.render readField ∧ TellsEnds RefType.render readRef ∧
      TellsEnds BinaryName.render readObject ∧ TellsEnds MethodType.render readMethod := by
  refine ⟨.of_isIncomplete readField_eq_ok_iff fun type _ => readField_isIncomplete type,
    .of_isIncomplete readRef_eq_ok_iff fun type _ => readRef_isIncomplete type,
    .of_isIncomplete readObject_eq_ok_iff fun name filled cut => ?_,
    .of_isIncomplete readMethod_eq_ok_iff readMethod_isIncomplete⟩
  rcases cases_of_isCut_object name cut with rfl | ⟨later, -, incomplete⟩
  · exact absurd rfl filled
  · exact incomplete

/-- A signature that ends within the name of a class, and one with a second result. -/
theorem tellEnds_sample :
    (∃ fault, whole readMethod "([[ILa/b".toList = .error fault ∧ fault.kind = .incomplete) ∧
      ∃ fault, whole readMethod "([[ILa/b;)VV".toList = .error fault ∧ fault.kind = .invalid ∧
        fault.message = "Unexpected leftover input 'V'" := by
  obtain ⟨-, -, -, ends⟩ := tellEnds
  have cut := ends.cut ⟨[.ref (.primitiveArray 1 .int), .ref (.object ⟨"a/b", by decide⟩)], none⟩
    "([[ILa/b".toList (by decide) (by decide) (by decide)
  have continued := ends.continued
    ⟨[.ref (.primitiveArray 1 .int), .ref (.object ⟨"a/b", by decide⟩)], none⟩ 'V' []
  have text : MethodType.render
      ⟨[.ref (.primitiveArray 1 .int), .ref (.object ⟨"a/b", by decide⟩)], none⟩ ++ ['V'] =
      "([[ILa/b;)VV".toList := by decide
  rw [text] at continued
  exact ⟨cut, continued⟩

end Descriptor

end ClassAccess
