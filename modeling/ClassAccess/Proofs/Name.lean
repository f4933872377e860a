import ClassAccess.Name
import ClassAccess.Proofs.Text.Words

/-!
# Valid names

What the checks of names let pass, in terms of characters and segments. The texts
of names are those that `UnqualifiedName.IsText` and `BinaryName.IsText` describe. A
binary name contains no point, so that bringing it into internal form leaves it as
it is.
-/

namespace ClassAccess

/-- Four characters are reserved. -/
theorem isReserved_eq_false_iff {c : Char} :
    isReserved c = false ↔ c ≠ '.' ∧ c ≠ ';' ∧ c ≠ '[' ∧ c ≠ '/' := by
  simp [isReserved, and_assoc]

namespace UnqualifiedName

/-- The text of an unqualified name: some characters, none of them reserved. -/
def IsText (text : List Char) : Prop :=
  text ≠ [] ∧ ∀ c ∈ text, c ≠ '.' ∧ c ≠ ';' ∧ c ≠ '[' ∧ c ≠ '/'

/-- An unqualified name is not empty and has no reserved characters. -/
theorem fault?_eq_none_iff {text : List Char} :
    fault? text = none ↔ text ≠ [] ∧ ∀ c ∈ text, isReserved c = false := by
  rw [fault?]
  cases reserved : text.any isReserved with
  | true =>
      obtain ⟨c, held, bad⟩ := List.any_eq_true.mp reserved
      simp only [if_true, reduceCtorEq, false_iff, not_and]
      exact fun _ clean => by simp [clean c held] at bad
  | false =>
      rw [List.any_eq_false] at reserved
      cases text with
      | nil => simp
      | cons c rest => simpa using reserved

/-- The check lets pass the texts of names. -/
theorem fault?_eq_none_iff_isText {text : List Char} : fault? text = none ↔ IsText text := by
  rw [fault?_eq_none_iff, IsText]
  simp only [isReserved_eq_false_iff]

/-- The text of a name is one. -/
theorem isText (name : UnqualifiedName) : IsText name.text.toList :=
  fault?_eq_none_iff_isText.mp name.valid

/-- Every text of a name is that of some name. -/
theorem IsText.exists_name {text : List Char} (isText : IsText text) :
    ∃ name : UnqualifiedName, name.text.toList = text :=
  ⟨⟨String.ofList text, by rwa [String.toList_ofList, fault?_eq_none_iff_isText]⟩,
    String.toList_ofList⟩

/-- A name has characters. -/
theorem toList_ne_nil (name : UnqualifiedName) : name.text.toList ≠ [] := name.isText.1

/-- The name with some characters is one whose text has these characters. -/
theorem ofString_ofList_eq_ok_iff {text : List Char} {name : UnqualifiedName} :
    ofString (String.ofList text) = .ok name ↔ name.text.toList = text := by
  rw [ofString_eq_ok_iff]
  constructor
  · intro same
    rw [same, String.toList_ofList]
  · rintro rfl
    rw [String.ofList_toList]

/-- A text that does not pass the check is refused with its fault. -/
theorem ofString_ofList_eq_error_iff {text : List Char} {fault : NameFault} :
    ofString (String.ofList text) = .error fault ↔ fault? text = some fault := by
  unfold ofString
  split
  · next passed =>
      rw [String.toList_ofList] at passed
      simp [passed]
  · next other failed =>
      rw [String.toList_ofList] at failed
      simp [failed]

end UnqualifiedName

namespace BinaryName

/-- A binary name is made up of unqualified names. -/
theorem fault?_eq_none_iff {text : List Char} :
    fault? text = none ↔ ∀ segment ∈ segments text,
      segment ≠ [] ∧ ∀ c ∈ segment, isReserved c = false := by
  simp only [← UnqualifiedName.fault?_eq_none_iff]
  cases text with
  | nil => simp [fault?, segments, UnqualifiedName.fault?]
  | cons c rest =>
      rw [fault?, if_neg (by simp), List.findSome?_eq_none_iff]

/-- The text of a binary name: texts of unqualified names with `/` between them. -/
def IsText (text : List Char) : Prop :=
  ∃ first later, text = first ++ later.flatMap ('/' :: ·) ∧
    ∀ segment ∈ first :: later, UnqualifiedName.IsText segment

/-- The check lets pass the texts of names. -/
theorem fault?_eq_none_iff_isText {text : List Char} : fault? text = none ↔ IsText text := by
  simp only [fault?_eq_none_iff, isReserved_eq_false_iff, segments]
  constructor
  · intro passed
    obtain ⟨first, later, cut⟩ :=
      List.exists_cons_of_ne_nil (Text.pieces_ne_nil (· == '/') text)
    rw [cut] at passed
    exact ⟨first, later, (Text.pieces_eq_cons_iff.mp cut).1, passed⟩
  · rintro ⟨first, later, joined, each⟩
    have unmarked : ∀ piece ∈ first :: later, '/' ∉ piece :=
      fun piece one held => ((each piece one).2 _ held).2.2.2 rfl
    rw [Text.pieces_eq_cons_iff.mpr ⟨joined, unmarked⟩]
    exact each

/-- The text of a name is one. -/
theorem isText (name : BinaryName) : IsText name.text.toList :=
  fault?_eq_none_iff_isText.mp name.valid

/-- Every text of a name is that of some name. -/
theorem IsText.exists_name {text : List Char} (isText : IsText text) :
    ∃ name : BinaryName, name.text.toList = text :=
  ⟨⟨String.ofList text, by rwa [String.toList_ofList, fault?_eq_none_iff_isText]⟩,
    String.toList_ofList⟩

/-- A name has characters. -/
theorem toList_ne_nil (name : BinaryName) : name.text.toList ≠ [] := by
  intro empty
  have impossible := name.valid
  rw [empty] at impossible
  cases impossible

/-- Of the reserved characters a name contains only those between its segments. -/
theorem not_isReserved_of_mem {name : BinaryName} {c : Char} (held : c ∈ name.text.toList)
    (inside : c ≠ '/') : isReserved c = false := by
  obtain ⟨segment, cut, within⟩ :=
    Text.exists_piece_of_mem (· == '/') held (beq_false_of_ne inside)
  exact (fault?_eq_none_iff.mp name.valid segment cut).2 c within

/-- A name is in internal form. -/
theorem internalForm_toList (name : BinaryName) :
    internalForm name.text.toList = name.text.toList := by
  have kept : ∀ c ∈ name.text.toList, (if c == '.' then '/' else c) = c := by
    intro c held
    split
    · next point =>
        rw [beq_iff_eq] at point
        subst point
        have impossible := not_isReserved_of_mem held (by decide)
        cases impossible
    · rfl
  rw [internalForm, List.map_congr_left kept, List.map_id'']
  exact fun _ => rfl

/-- The name with some characters is one whose text has these characters. -/
theorem ofString_ofList_eq_ok_iff {text : List Char} {name : BinaryName} :
    ofString (String.ofList text) = .ok name ↔ name.text.toList = text := by
  rw [ofString_eq_ok_iff, ← String.toList_inj, String.toList_ofList]

/-- A text in either form is read as the name whose characters are its internal form. -/
theorem ofQualified_eq_ok_iff {text : List Char} {name : BinaryName} :
    ofQualified (String.ofList text) = .ok name ↔ name.text.toList = internalForm text := by
  rw [ofQualified, ofString_ofList_eq_ok_iff, String.toList_ofList]

/-- A text that does not pass the check is refused with its fault. -/
theorem ofQualified_eq_error_iff {text : List Char} {fault : NameFault} :
    ofQualified (String.ofList text) = .error fault ↔ fault? (internalForm text) = some fault := by
  unfold ofQualified ofString
  split
  · next passed =>
      rw [String.toList_ofList, String.toList_ofList] at passed
      simp [passed]
  · next other failed =>
      rw [String.toList_ofList, String.toList_ofList] at failed
      simp [failed]

/-- The internal form of a text without blanks has none. -/
theorem blankless_internalForm {text : List Char} (blankless : Text.Blankless text) :
    Text.Blankless (internalForm text) := by
  intro c held
  obtain ⟨original, within, rfl⟩ := List.mem_map.mp held
  split
  · decide
  · exact blankless original within

end BinaryName

end ClassAccess
