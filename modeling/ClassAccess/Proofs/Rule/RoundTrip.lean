import ClassAccess.Proofs.Rule.Reading

/-!
# Reading written directives back

Only directives that can be written are read from lines, and each of them is read
from its own written form. A line need not be the written form of what it is read
as: any blanks may stand between its words, and its owner may be in either form.
-/

namespace ClassAccess

/-- Directives that can be written: neither owner nor target means something else in a rule. -/
structure Directive.WellFormed (directive : Directive) : Prop where
  owner : Text.Blankless directive.owner.text.toList
  target : directive.target.WellFormed

/-- Keywords are words. -/
theorem AccessLevel.isWord_keyword (level : AccessLevel) : Text.IsWord level.keyword.toList := by
  cases level <;> exact ⟨by decide, by decide⟩

/-- Toggles are written without blanks. -/
theorem Toggle.blankless_render (toggle : Toggle) : Text.Blankless toggle.render.toList := by
  obtain ⟨action, modifier⟩ := toggle
  cases action <;> cases modifier <;> decide

/-- A level and toggles are written as one word. -/
theorem isWord_access (level : AccessLevel) (toggles : List Toggle) :
    Text.IsWord
      (level.keyword.toList ++ toggles.flatMap fun toggle => toggle.render.toList) := by
  refine level.isWord_keyword.append fun c held => ?_
  obtain ⟨toggle, -, within⟩ := List.mem_flatMap.mp held
  exact toggle.blankless_render c within

/-- A target that can be written takes at most one word. -/
theorem Target.WellFormed.exists_words {target : Target} (wellFormed : target.WellFormed) :
    ∃ members : List (List Char), members.length ≤ 1 ∧
      (∀ word ∈ members, Text.IsWord word) ∧ target.render = members.flatMap (' ' :: ·) := by
  have single {word : List Char} (isWord : Text.IsWord word)
      (written : target.render = ' ' :: word) :
      ∃ members : List (List Char), members.length ≤ 1 ∧
        (∀ word ∈ members, Text.IsWord word) ∧ target.render = members.flatMap (' ' :: ·) :=
    ⟨[word], le_rfl, List.forall_mem_singleton.mpr isWord, by simp [written]⟩
  cases wellFormed with
  | classItself => exact ⟨[], by simp, by simp, rfl⟩
  | everyField => exact single ⟨by decide, by decide⟩ rfl
  | everyMethod => exact single ⟨by decide, by decide⟩ rfl
  | @field name nameBlankless => exact single ⟨name.toList_ne_nil, nameBlankless⟩ rfl
  | @method name descriptor _ nameBlankless _ _ _ descriptorBlankless =>
      have isName : Text.IsWord name.text.toList := ⟨name.toList_ne_nil, nameBlankless⟩
      exact single (isName.append descriptorBlankless) rfl

namespace Directive

/-- A line is read as the directive that its words are read as. -/
theorem parse_eq_ok_iff {line : String} {directive : Directive} :
    parse line = .ok directive ↔ Rule.readWords (Text.words line.toList) = .ok directive :=
  mapError_eq_ok_iff

/-- The words of a written directive are read as the directive. -/
theorem WellFormed.readWords_words {directive : Directive} (wellFormed : directive.WellFormed) :
    Rule.readWords (Text.words directive.renderChars) = .ok directive := by
  obtain ⟨members, few, each, written⟩ := wellFormed.target.exists_words
  have owner : Text.IsWord directive.owner.text.toList :=
    ⟨directive.owner.toList_ne_nil, wellFormed.owner⟩
  have allWords := List.forall_mem_cons.mpr
    ⟨isWord_access directive.access directive.toggles, List.forall_mem_cons.mpr ⟨owner, each⟩⟩
  have spaced := Text.words_spaced allWords
  rw [List.flatMap_cons, ← written] at spaced
  rw [renderChars, List.append_assoc, spaced,
    Rule.readWords_eq_ok_iff fun word held => (allWords word held).blankless]
  exact ⟨_, _, members, rfl, few, rfl, directive.owner.internalForm_toList.symm,
    wellFormed.target, written⟩

/-- Words are only read as directives that can be written. -/
theorem wellFormed_of_readWords {line : List Char} {directive : Directive}
    (read : Rule.readWords (Text.words line) = .ok directive) : directive.WellFormed := by
  have blankless : ∀ word ∈ Text.words line, Text.Blankless word :=
    fun word held => (Text.isWord_of_mem_words held).blankless
  obtain ⟨access, owner, members, cut, -, -, qualified, target, -⟩ :=
    (Rule.readWords_eq_ok_iff blankless).mp read
  have ownerBlankless : Text.Blankless owner := blankless owner (by simp [cut])
  exact ⟨qualified ▸ BinaryName.blankless_internalForm ownerBlankless, target⟩

/-- Lines are read as directives that can be written and as no others, and each directive
that can be written is read from its written form. -/
theorem parse_render_inverse :
    (∀ (line : String) (directive : Directive),
      parse line = .ok directive → directive.WellFormed) ∧
    ∀ directive : Directive, directive.WellFormed → parse directive.render = .ok directive := by
  constructor
  · intro line directive read
    exact wellFormed_of_readWords (parse_eq_ok_iff.mp read)
  · intro directive wellFormed
    rw [parse_eq_ok_iff, render, String.toList_ofList]
    exact wellFormed.readWords_words

/-- A directive whose names hold signs, asterisks, parentheses and the mark of comments. -/
def odd : Directive where
  access := .protectedAccess
  toggles := [.add .final, .remove .final, .add .final]
  owner := ⟨"a+f/#*()", by decide⟩
  target := .method (.named ⟨")*+#", by decide⟩ (some "()V"))

/-- This directive can be written and is read back, whatever its names look like. -/
theorem parse_render_inverse_odd :
    odd.WellFormed ∧ odd.render = "protected+f-f+f a+f/#*() )*+#()V" ∧
      parse "protected+f-f+f a+f/#*() )*+#()V" = .ok odd := by
  have described : Descriptor.whole Descriptor.readMethod "()V".toList = .ok ⟨[], none⟩ := by
    simp [Descriptor.whole, Descriptor.readMethod, Descriptor.readParameters,
      Descriptor.readResult, Descriptor.Outcome.map, Except.map]
  have angleless : ∀ c ∈ ")*+#".toList, c ≠ '<' ∧ c ≠ '>' := by simp
  have wellFormed : odd.WellFormed := {
    owner := by decide
    target := .method (by decide) (by decide) (by decide) (.inr angleless) (by decide)
      described (by decide) }
  have rendered : odd.render = "protected+f-f+f a+f/#*() )*+#()V" := by decide
  have parsed := parse_render_inverse.2 odd wellFormed
  rw [rendered] at parsed
  exact ⟨parse_render_inverse.1 _ odd parsed, rendered, parsed⟩

end Directive

end ClassAccess
