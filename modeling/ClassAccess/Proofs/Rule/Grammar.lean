import ClassAccess.Proofs.Descriptor.Grammar
import ClassAccess.Proofs.Rule.RoundTrip

/-!
# The grammar of rule lines

    line    = access owner [member]
    access  = level (("+" | "-") modifier)*
    owner   = segment (("/" | ".") segment)*
    member  = "*" | "*()" | field | method descriptor

`Rule.Derives` states the grammar on the characters of a line, together with what
its words say. `Directive.parse_eq_ok_iff_derives` says that a line is read as a
directive when the grammar has it, and as a directive that says the same.

A word has one meaning at most: the wildcards are told apart from fields and
methods of the same characters. Faults of other lines are not described here.
-/

namespace ClassAccess

/-- The characters of the name and the descriptor that a pattern asks for. -/
def MemberPattern.texts : MemberPattern → Option (List Char × Option (List Char))
  | every => none
  | named name descriptor => some (name.text.toList, descriptor.map String.toList)

/-- The characters of the name and the descriptor that a target asks for. -/
def Target.texts : Target → Option (List Char × Option (List Char))
  | classItself => none
  | field pattern => pattern.texts
  | method pattern => pattern.texts

namespace Rule

/-- What a rule line says. A member is given by its name and its descriptor, unless every one of
its kind is meant. -/
structure Reading where
  access : AccessLevel
  toggles : List Toggle
  owner : List Char
  kind : TargetKind
  member : Option (List Char × Option (List Char))

/-- Words that stand for a member: wildcards, names of fields, and methods with a descriptor. -/
inductive IsMember : List Char → TargetKind → Option (List Char × Option (List Char)) → Prop where
  | everyField : IsMember ['*'] .field none
  | everyMethod : IsMember ['*', '(', ')'] .method none
  | field {name : List Char}
      (named : UnqualifiedName.IsText name)
      (notWildcard : name ≠ ['*'])
      (plain : ∀ c ∈ name, c ≠ '<' ∧ c ≠ '>' ∧ c ≠ '(' ∧ c ≠ ')') :
      IsMember name .field (some (name, none))
  | method {name descriptor result : List Char}
      (named : UnqualifiedName.IsText name)
      (notWildcard : name ≠ ['*'])
      (unopened : '(' ∉ name)
      (angles : name = "<init>".toList ∨ ∀ c ∈ name, c ≠ '<' ∧ c ≠ '>')
      (described : MethodType.IsText descriptor result)
      (constructs : name = "<init>".toList → result = ['V']) :
      IsMember (name ++ descriptor) .method (some (name, some descriptor))

/-- Words that stand for a target: none for the class itself, or one for a member. -/
inductive IsTarget :
    List (List Char) → TargetKind → Option (List Char × Option (List Char)) → Prop where
  | classItself : IsTarget [] .classItself none
  | member {word : List Char} {kind : TargetKind}
      {texts : Option (List Char × Option (List Char))}
      (isMember : IsMember word kind texts) : IsTarget [word] kind texts

/-- The words for the access levels. -/
inductive IsLevel : List Char → AccessLevel → Prop where
  | publicAccess : IsLevel "public".toList .publicAccess
  | protectedAccess : IsLevel "protected".toList .protectedAccess
  | packageAccess : IsLevel "default".toList .packageAccess
  | privateAccess : IsLevel "private".toList .privateAccess

/-- The signs that set and clear bits. -/
inductive IsSign : Char → ToggleAction → Prop where
  | plus : IsSign '+' .add
  | minus : IsSign '-' .remove

/-- The short names of modifiers. -/
inductive IsModifier : List Char → Modifier → Prop where
  | final : IsModifier ['f'] .final

/-- Any number of signs, each with a modifier behind it. -/
inductive AreToggles : List Char → List Toggle → Prop where
  | none : AreToggles [] []
  | next {sign : Char} {action : ToggleAction} {code rest : List Char} {modifier : Modifier}
      {later : List Toggle} (signed : IsSign sign action) (named : IsModifier code modifier)
      (behind : AreToggles rest later) :
      AreToggles (sign :: code ++ rest) (⟨action, modifier⟩ :: later)

/-- Words that say an access level and what else is set or cleared. -/
inductive IsAccess : List Char → AccessLevel → List Toggle → Prop where
  | of {word text : List Char} {level : AccessLevel} {toggles : List Toggle}
      (isLevel : IsLevel word level) (toggled : AreToggles text toggles) :
      IsAccess (word ++ text) level toggles

/-- A class name in either form, and the same name in internal form: each point has become a slash,
and all other characters were kept. -/
inductive IsNormalized : List Char → List Char → Prop where
  | none : IsNormalized [] []
  | point {rest form : List Char} (behind : IsNormalized rest form) :
      IsNormalized ('.' :: rest) ('/' :: form)
  | kept {c : Char} {rest form : List Char} (notPoint : c ≠ '.')
      (behind : IsNormalized rest form) : IsNormalized (c :: rest) (c :: form)

/-- Lines of two or three words: a level with signs and modifiers, a class name in either form,
and possibly a member. -/
def Derives (line : List Char) (reading : Reading) : Prop :=
  ∃ access owner members, Text.AreWords line (access :: owner :: members) ∧
    IsAccess access reading.access reading.toggles ∧
    (IsNormalized owner reading.owner ∧ BinaryName.IsText reading.owner) ∧
    IsTarget members reading.kind reading.member

end Rule

/-- What a directive says. -/
def Directive.reading (directive : Directive) : Rule.Reading where
  access := directive.access
  toggles := directive.toggles
  owner := directive.owner.text.toList
  kind := directive.target.kind
  member := directive.target.texts

namespace Rule

/-- The word for a level is its keyword. -/
theorem isLevel_iff {word : List Char} {level : AccessLevel} :
    IsLevel word level ↔ word = level.keyword.toList := by
  constructor
  · intro isLevel
    cases isLevel <;> rfl
  · rintro rfl
    cases level <;> constructor

/-- Signs and modifiers are written one behind the other. -/
theorem areToggles_iff {text : List Char} {toggles : List Toggle} :
    AreToggles text toggles ↔
      text = toggles.flatMap fun toggle => toggle.action.sign :: toggle.modifier.code.toList := by
  constructor
  · intro are
    induction are with
    | none => rfl
    | next signed named behind ih =>
        rw [List.flatMap_cons, ← ih]
        cases signed <;> cases named <;> rfl
  · rintro rfl
    induction toggles with
    | nil => exact .none
    | cons toggle later ih =>
        obtain ⟨action, ⟨⟩⟩ := toggle
        cases action with
        | add => exact .next .plus .final ih
        | remove => exact .next .minus .final ih

/-- The first word of a line is the keyword of its level with its signs and modifiers. -/
theorem isAccess_iff {word : List Char} {level : AccessLevel} {toggles : List Toggle} :
    IsAccess word level toggles ↔ word = level.keyword.toList ++
      toggles.flatMap fun toggle => toggle.action.sign :: toggle.modifier.code.toList := by
  constructor
  · rintro ⟨isLevel, toggled⟩
    rw [isLevel_iff.mp isLevel, areToggles_iff.mp toggled]
  · rintro rfl
    exact .of (isLevel_iff.mpr rfl) (areToggles_iff.mpr rfl)

/-- The internal form of a class name is the one that the name is brought into. -/
theorem isNormalized_iff {text form : List Char} :
    IsNormalized text form ↔ form = BinaryName.internalForm text := by
  constructor
  · intro normalized
    induction normalized with
    | none => rfl
    | point behind ih =>
        rw [ih]
        rfl
    | kept notPoint behind ih =>
        rw [ih, BinaryName.internalForm, BinaryName.internalForm, List.map_cons,
          if_neg (by simpa using notPoint)]
  · rintro rfl
    induction text with
    | nil => exact .none
    | cons c rest ih =>
        by_cases point : c = '.'
        · subst point
          exact .point ih
        · rw [BinaryName.internalForm, List.map_cons, if_neg (by simpa using point)]
          exact .kept point ih

/-- The name of constructors is known by its characters. -/
theorem toList_eq_constructor_iff {name : UnqualifiedName} :
    name.text.toList = "<init>".toList ↔ name.text = "<init>" := String.toList_inj

/-- A word stands for a member when it is the written form of a target. -/
theorem isMember_iff {word : List Char} {target : Target} (blankless : Text.Blankless word) :
    IsMember word target.kind target.texts ↔
      target.WellFormed ∧ target.render = ' ' :: word := by
  constructor
  · intro isMember
    match target, isMember with
    | .field .every, .everyField => exact ⟨.everyField, rfl⟩
    | .method .every, .everyMethod => exact ⟨.everyMethod, rfl⟩
    | .field (.named name none), .field _ notWildcard plain =>
        exact ⟨.field blankless plain (ne_wildcard_iff.mpr notWildcard), rfl⟩
    | .method (.named name (some descriptor)),
        .method _ notWildcard unopened angles described constructs =>
        obtain ⟨nameBlankless, descriptorBlankless⟩ := Text.blankless_append.mp blankless
        rw [toList_eq_constructor_iff] at angles constructs
        obtain ⟨signature, read, resultless⟩ :=
          Descriptor.exists_whole_readMethod_iff.mpr ⟨_, described, constructs⟩
        exact ⟨.method nameBlankless unopened (ne_wildcard_iff.mpr notWildcard) angles
          descriptorBlankless read resultless, rfl⟩
  · rintro ⟨wellFormed, written⟩
    cases wellFormed with
    | classItself => cases written
    | everyField =>
        cases written
        exact .everyField
    | everyMethod =>
        cases written
        exact .everyMethod
    | @field name _ plain notWildcard =>
        cases written
        exact .field name.isText (ne_wildcard_iff.mp notWildcard) plain
    | @method name descriptor signature _ unopened notWildcard angles _ described constructs =>
        cases written
        obtain ⟨result, isText, void⟩ :=
          Descriptor.exists_whole_readMethod_iff.mp ⟨signature, described, constructs⟩
        rw [← toList_eq_constructor_iff] at angles void
        exact .method name.isText (ne_wildcard_iff.mp notWildcard) unopened angles isText void

/-- Only the class itself is written without a word. -/
theorem render_eq_nil_iff {target : Target} : target.render = [] ↔ target = .classItself := by
  match target with
  | .classItself => simp [Target.render]
  | .field .every => simp [Target.render]
  | .method .every => simp [Target.render]
  | .field (.named _ _) => simp [Target.render]
  | .method (.named _ _) => simp [Target.render]

/-- Words stand for a target when they are its written form. -/
theorem isTarget_iff {members : List (List Char)} {target : Target}
    (blankless : ∀ word ∈ members, Text.Blankless word) :
    IsTarget members target.kind target.texts ↔
      members.length ≤ 1 ∧ target.WellFormed ∧ target.render = members.flatMap (' ' :: ·) := by
  match members with
  | [] =>
      rw [List.flatMap_nil, render_eq_nil_iff]
      constructor
      · intro isTarget
        match target, isTarget with
        | .classItself, .classItself => exact ⟨by simp, .classItself, rfl⟩
      · rintro ⟨-, -, rfl⟩
        exact .classItself
  | [word] =>
      rw [List.flatMap_singleton, ← isMember_iff (blankless word List.mem_cons_self)]
      constructor
      · intro isTarget
        cases isTarget with
        | member isMember => exact ⟨le_rfl, isMember⟩
      · rintro ⟨-, isMember⟩
        exact .member isMember
  | first :: second :: later =>
      constructor
      · intro isTarget
        cases isTarget
      · rintro ⟨few, -⟩
        simp at few

/-- Words that stand for a target are those of some target. -/
theorem IsTarget.exists_target {members : List (List Char)} {kind : TargetKind}
    {texts : Option (List Char × Option (List Char))} (isTarget : IsTarget members kind texts) :
    ∃ target : Target, target.kind = kind ∧ target.texts = texts := by
  rcases isTarget with _ | isMember
  · exact ⟨.classItself, rfl, rfl⟩
  · cases isMember with
    | everyField => exact ⟨.field .every, rfl, rfl⟩
    | everyMethod => exact ⟨.method .every, rfl, rfl⟩
    | field named =>
        obtain ⟨name, rfl⟩ := named.exists_name
        exact ⟨.field (.named name none), rfl, rfl⟩
    | @method _ descriptor _ named =>
        obtain ⟨name, rfl⟩ := named.exists_name
        exact ⟨.method (.named name (some (String.ofList descriptor))), rfl,
          by simp [Target.texts, MemberPattern.texts]⟩

/-- The words of a line are read as a directive when the grammar has the line with what the
directive says. -/
theorem readWords_words_eq_ok_iff {line : List Char} {directive : Directive} :
    readWords (Text.words line) = .ok directive ↔ Derives line directive.reading := by
  have blankless : ∀ word ∈ Text.words line, Text.Blankless word :=
    fun word held => (Text.isWord_of_mem_words held).blankless
  rw [readWords_eq_ok_iff blankless, Derives]
  refine exists_congr fun access => exists_congr fun owner => exists_congr fun members => ?_
  rw [← Text.words_eq_iff]
  refine and_congr_right fun cut => ?_
  have few : ∀ word ∈ members, Text.Blankless word :=
    fun word held => blankless word (by simp [cut, held])
  simp only [Directive.reading, isAccess_iff, isNormalized_iff, isTarget_iff few,
    Toggle.toList_render, directive.owner.isText, and_true]
  tauto

end Rule

/-- A line is read as some directive exactly when the grammar has it, and as a given directive
exactly when the grammar has it with what this directive says. -/
theorem Directive.parse_eq_ok_iff_derives (line : String) :
    ((∃ directive, parse line = .ok directive) ↔ ∃ reading, Rule.Derives line.toList reading) ∧
      ∀ directive, parse line = .ok directive ↔ Rule.Derives line.toList directive.reading := by
  have each : ∀ directive,
      parse line = .ok directive ↔ Rule.Derives line.toList directive.reading := by
    intro directive
    rw [parse_eq_ok_iff, Rule.readWords_words_eq_ok_iff]
  refine ⟨⟨?_, ?_⟩, each⟩
  · rintro ⟨directive, read⟩
    exact ⟨directive.reading, (each directive).mp read⟩
  · rintro ⟨⟨access, toggles, owner, kind, member⟩, derived⟩
    -- The names in the reading are valid, so that some directive says the same.
    have ⟨_, _, _, _, _, ⟨_, owned⟩, targeted⟩ := derived
    obtain ⟨name, rfl⟩ := BinaryName.IsText.exists_name owned
    obtain ⟨target, rfl, rfl⟩ := targeted.exists_target
    exact ⟨⟨access, toggles, name, target⟩, (each _).mpr derived⟩

end ClassAccess
