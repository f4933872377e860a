import ClassAccess.Proofs.Descriptor.PrefixCode
import ClassAccess.Rule.Syntax
import Mathlib.Data.List.TakeWhile

/-!
# What the words of a rule are read as

Each word of a rule line is read as a value exactly when it is the written form
of that value. `readAccess_eq_ok_iff` says this of the access word,
`readTarget_eq_ok_iff` of a target and `readWords_eq_ok_iff` of a whole line.
Members have several meanings by their characters alone, so that not every target
can be written; `Target.WellFormed` says which ones can.

Faults are not described here.
-/

namespace ClassAccess

/-- The characters of a short name stand for the modifier that has it. -/
theorem Modifier.ofCode?_ofList_eq_some_iff {code : List Char} {modifier : Modifier} :
    ofCode? (String.ofList code) = some modifier ↔ code = modifier.code.toList := by
  constructor
  · intro found
    have held := List.find?_some found
    rw [beq_iff_eq.mp held, String.toList_ofList]
  · rintro rfl
    rw [String.ofList_toList, ofCode?_code]

/-- The characters of a keyword stand for the level that has it. -/
theorem AccessLevel.ofKeyword?_ofList_eq_some_iff {word : List Char} {level : AccessLevel} :
    ofKeyword? (String.ofList word) = some level ↔ word = level.keyword.toList := by
  constructor
  · intro found
    have held := List.find?_some found
    rw [beq_iff_eq.mp held, String.toList_ofList]
  · rintro rfl
    rw [String.ofList_toList, ofKeyword?_keyword]

/-- A toggle is written as its sign and the short name of its modifier. -/
theorem Toggle.toList_render (toggle : Toggle) :
    toggle.render.toList = toggle.action.sign :: toggle.modifier.code.toList := by
  simp [render]

namespace Rule

/-- The sign of an action is a sign. -/
theorem isSign_sign (action : ToggleAction) : isSign action.sign = true := by
  cases action <;> rfl

/-- The sign of an action stands for it. -/
theorem actionOf_sign (action : ToggleAction) : actionOf action.sign = action := by
  cases action <;> rfl

/-- The action that a sign stands for has this sign. -/
theorem sign_actionOf {sign : Char} (signed : isSign sign = true) :
    (actionOf sign).sign = sign := by
  rw [isSign, Bool.or_eq_true, beq_iff_eq, beq_iff_eq] at signed
  rcases signed with rfl | rfl <;> rfl

/-- Short names have characters, none of which is a sign. -/
theorem code_unsigned (modifier : Modifier) :
    modifier.code.toList ≠ [] ∧ ∀ c ∈ modifier.code.toList, (!isSign c) = true := by
  cases modifier
  exact ⟨by decide, List.all_eq_true.mp (by decide)⟩

/-- No character of a keyword is a sign. -/
theorem keyword_unsigned (level : AccessLevel) :
    ∀ c ∈ level.keyword.toList, (!isSign c) = true := by
  cases level <;> exact List.all_eq_true.mp (by decide)

/-- Written toggles start with a sign. -/
theorem head?_toggles (toggles : List Toggle) :
    ∀ c ∈ (toggles.flatMap fun toggle => toggle.render.toList).head?, (!isSign c) = false := by
  cases toggles with
  | nil => simp
  | cons toggle later => simp [Toggle.toList_render, isSign_sign]

/-- Written toggles are the sign and the short name of the first, and then the others. -/
theorem cons_eq_toggles_iff {sign : Char} {rest : List Char} {toggles : List Toggle} :
    (sign :: rest = toggles.flatMap fun toggle => toggle.render.toList) ↔
      ∃ toggle later, toggles = toggle :: later ∧ sign = toggle.action.sign ∧
        rest.takeWhile (fun c => !isSign c) = toggle.modifier.code.toList ∧
        rest.dropWhile (fun c => !isSign c) =
          later.flatMap fun toggle => toggle.render.toList := by
  constructor
  · intro stored
    cases toggles with
    | nil => cases stored
    | cons toggle later =>
        rw [List.flatMap_cons, Toggle.toList_render, List.cons_append, List.cons.injEq] at stored
        obtain ⟨rfl, rfl⟩ := stored
        exact ⟨toggle, later, rfl, rfl,
          Text.takeWhile_dropWhile_append _ (code_unsigned toggle.modifier).2 (head?_toggles later)⟩
  · rintro ⟨toggle, later, rfl, rfl, code, tail⟩
    rw [List.flatMap_cons, Toggle.toList_render, ← code, ← tail, List.cons_append,
      List.takeWhile_append_dropWhile]

/-- What is cut off at the first sign starts with that sign. -/
theorem isSign_of_head?_dropWhile (word : List Char) :
    ∀ c ∈ (word.dropWhile fun c => !isSign c).head?, isSign c = true := by
  intro c first
  rw [← List.find?_eq_head?_dropWhile_not] at first
  exact List.find?_some first

/-- What starts with a sign is read as the toggles that it is the written form of. -/
theorem readToggles_eq_ok_iff {input : List Char} {toggles : List Toggle}
    (signed : ∀ c ∈ input.head?, isSign c = true) :
    readToggles input = .ok toggles ↔
      input = toggles.flatMap fun toggle => toggle.render.toList := by
  -- What is left after a modifier starts with a sign again, so that the hypothesis carries over.
  fun_induction readToggles input generalizing toggles
  case case1 =>
    cases toggles with
    | nil => simp
    | cons toggle later => simp [Toggle.toList_render]
  case case2 sign rest code empty =>
    rw [cons_eq_toggles_iff]
    simp only [reduceCtorEq, false_iff]
    rintro ⟨toggle, later, -, -, taken, -⟩
    refine (code_unsigned toggle.modifier).1 ?_
    rw [← taken]
    exact List.isEmpty_iff.mp empty
  case case3 sign rest code filled unknown =>
    rw [cons_eq_toggles_iff]
    simp only [reduceCtorEq, false_iff]
    rintro ⟨toggle, later, -, -, taken, -⟩
    have known := Modifier.ofCode?_ofList_eq_some_iff.mpr taken
    rw [unknown] at known
    cases known
  case case4 sign rest code filled modifier known ih =>
    have sameSign := sign_actionOf (signed sign rfl)
    rw [cons_eq_toggles_iff, map_eq_ok_iff]
    simp only [ih (isSign_of_head?_dropWhile _)]
    constructor
    · rintro ⟨later, tail, rfl⟩
      exact ⟨⟨actionOf sign, modifier⟩, later, rfl, sameSign.symm,
        Modifier.ofCode?_ofList_eq_some_iff.mp known, tail⟩
    · rintro ⟨⟨action, other⟩, later, rfl, rfl, taken, tail⟩
      have knownOther := Modifier.ofCode?_ofList_eq_some_iff.mpr taken
      rw [known, Option.some.injEq] at knownOther
      exact ⟨later, tail, by rw [actionOf_sign, knownOther]⟩

/-- A word is read as a level with toggles when it is the written form of both. -/
theorem readAccess_eq_ok_iff {word : List Char} {level : AccessLevel} {toggles : List Toggle} :
    readAccess word = .ok (level, toggles) ↔
      word = level.keyword.toList ++ toggles.flatMap fun toggle => toggle.render.toList := by
  constructor
  · intro read
    rw [readAccess] at read
    split at read
    · cases read
    · next access known =>
        obtain ⟨later, tail, same⟩ := map_eq_ok_iff.mp read
        cases same
        rw [readToggles_eq_ok_iff (isSign_of_head?_dropWhile word)] at tail
        rw [← tail, ← AccessLevel.ofKeyword?_ofList_eq_some_iff.mp known,
          List.takeWhile_append_dropWhile]
  · rintro rfl
    obtain ⟨front, tail⟩ :=
      Text.takeWhile_dropWhile_append _ (keyword_unsigned level) (head?_toggles toggles)
    have signed := isSign_of_head?_dropWhile
      (level.keyword.toList ++ toggles.flatMap fun toggle => toggle.render.toList)
    rw [tail] at signed
    rw [readAccess, front, tail, AccessLevel.ofKeyword?_ofList_eq_some_iff.mpr rfl,
      (readToggles_eq_ok_iff signed).mpr rfl]
    rfl

end Rule

/-- Targets that can be written: their names mean nothing else in a rule, and methods have a
descriptor that parses. -/
inductive Target.WellFormed : Target → Prop where
  | classItself : WellFormed .classItself
  | everyField : WellFormed (.field .every)
  | everyMethod : WellFormed (.method .every)
  | field {name : UnqualifiedName}
      (nameBlankless : Text.Blankless name.text.toList)
      (plain : ∀ c ∈ name.text.toList, c ≠ '<' ∧ c ≠ '>' ∧ c ≠ '(' ∧ c ≠ ')')
      (notWildcard : name.text ≠ "*") :
      WellFormed (.field (.named name none))
  | method {name : UnqualifiedName} {descriptor : String} {signature : MethodType}
      (nameBlankless : Text.Blankless name.text.toList)
      (unopened : '(' ∉ name.text.toList)
      (notWildcard : name.text ≠ "*")
      (angles : name.text = "<init>" ∨ ∀ c ∈ name.text.toList, c ≠ '<' ∧ c ≠ '>')
      (descriptorBlankless : Text.Blankless descriptor.toList)
      (described : Descriptor.whole Descriptor.readMethod descriptor.toList = .ok signature)
      (constructs : name.text = "<init>" → signature.result = none) :
      WellFormed (.method (.named name (some descriptor)))

namespace Rule

/-- The descriptor of a method starts with a parenthesis. -/
theorem exists_cons_of_readMethod {input : List Char} {signature : MethodType}
    (read : Descriptor.whole Descriptor.readMethod input = .ok signature) :
    ∃ rest, input = '(' :: rest := by
  rw [Descriptor.whole_eq_ok_iff_read, Descriptor.readMethod_eq_ok_iff] at read
  exact ⟨_, read⟩

/-- Only one name is that of constructors. -/
theorem eq_constructor_iff {name : UnqualifiedName} :
    name = .constructor ↔ name.text = "<init>" := by
  obtain ⟨text, valid⟩ := name
  rw [UnqualifiedName.constructor, UnqualifiedName.mk.injEq]

/-- Only one name is that of static initializers. -/
theorem eq_staticInitializer_iff {name : UnqualifiedName} :
    name = .staticInitializer ↔ name.text = "<clinit>" := by
  obtain ⟨text, valid⟩ := name
  rw [UnqualifiedName.staticInitializer, UnqualifiedName.mk.injEq]

/-- Rules take the name of constructors and names without angle brackets as names of methods. -/
theorem isMethodName_iff {name : UnqualifiedName} :
    name.isMethodName = true ∧ name ≠ .staticInitializer ↔
      name.text = "<init>" ∨ ∀ c ∈ name.text.toList, c ≠ '<' ∧ c ≠ '>' := by
  have angleless : (!name.text.toList.any UnqualifiedName.isAngle) = true ↔
      ∀ c ∈ name.text.toList, c ≠ '<' ∧ c ≠ '>' := by
    simp [UnqualifiedName.isAngle]
  rw [UnqualifiedName.isMethodName, Bool.or_eq_true, angleless, UnqualifiedName.isSpecial,
    Bool.or_eq_true, decide_eq_true_eq, decide_eq_true_eq, eq_constructor_iff]
  constructor
  · rintro ⟨(constructs | initializes) | plain, other⟩
    · exact .inl constructs
    · exact absurd initializes other
    · exact .inr plain
  · rintro (constructs | plain)
    · refine ⟨.inl (.inl constructs), ?_⟩
      rintro rfl
      exact absurd constructs (by decide)
    · refine ⟨.inr plain, ?_⟩
      rintro rfl
      exact (plain '<' (by decide)).1 rfl

/-- A name is read as that of a field when it has none of the forbidden characters. -/
theorem readFieldName_eq_ok_iff {name : UnqualifiedName} {target : Target} :
    readFieldName name = .ok target ↔
      (∀ c ∈ name.text.toList, c ≠ '<' ∧ c ≠ '>' ∧ c ≠ ')') ∧
        target = .field (.named name none) := by
  have allowed : name.text.toList.any isForbiddenInField = false ↔
      ∀ c ∈ name.text.toList, c ≠ '<' ∧ c ≠ '>' ∧ c ≠ ')' := by
    simp [isForbiddenInField, and_assoc]
  rw [← allowed, readFieldName]
  cases name.text.toList.any isForbiddenInField <;> simp [eq_comm]

/-- A name with a descriptor is read as a method when the name can be that of one and the
descriptor parses. -/
theorem readMethodName_eq_ok_iff {name : UnqualifiedName} {descriptor : List Char}
    {target : Target} :
    readMethodName name descriptor = .ok target ↔
      (name.text = "<init>" ∨ ∀ c ∈ name.text.toList, c ≠ '<' ∧ c ≠ '>') ∧
        (∃ signature, Descriptor.whole Descriptor.readMethod descriptor = .ok signature ∧
          (name.text = "<init>" → signature.result = none)) ∧
        target = .method (.named name (some (String.ofList descriptor))) := by
  rw [← isMethodName_iff, ← eq_constructor_iff, readMethodName]
  split
  · next named =>
      rw [Bool.not_eq_true'] at named
      simp [named]
  next named =>
  rw [Bool.not_eq_true', Bool.not_eq_false] at named
  split
  · next initializes => simp [initializes]
  next plain =>
  cases described : Descriptor.whole Descriptor.readMethod descriptor with
  | error fault => simp
  | ok signature =>
      simp only [named, plain, Except.ok.injEq, exists_eq_left', ne_eq, not_false_iff, and_true,
        true_and]
      split
      · next constructs => simp [constructs.1, Option.isSome_iff_ne_none.mp constructs.2]
      · next result =>
          rw [not_and, Bool.not_eq_true, Option.isSome_eq_false_iff, Option.isNone_iff_eq_none]
            at result
          rw [Except.ok.injEq, eq_comm]
          exact ⟨fun same => ⟨result, same⟩, And.right⟩

/-- What is read behind a name is nothing or a descriptor. -/
theorem readMember_append {front descriptor : List Char} (unopened : '(' ∉ front)
    (opened : ∀ c ∈ descriptor.head?, c = '(') (notWildcard : front ≠ ['*']) :
    readMember (front ++ descriptor) =
      match UnqualifiedName.ofString (String.ofList front) with
      | .error fault => .error (.badName fault)
      | .ok name =>
          if descriptor = [] then readFieldName name else readMethodName name descriptor := by
  obtain ⟨taken, dropped⟩ := Text.takeWhile_dropWhile_append (· != '(')
    (fun c held => bne_iff_ne.mpr fun same => unopened (same ▸ held))
    (fun c first => by rw [opened c first]; rfl)
  have notEveryField : front ++ descriptor ≠ ['*'] := by
    intro every
    rw [every] at taken
    exact notWildcard taken.symm
  have notEveryMethod : front ++ descriptor ≠ ['*', '(', ')'] := by
    intro every
    rw [every] at taken
    exact notWildcard taken.symm
  rw [readMember, if_neg notEveryField, if_neg notEveryMethod, taken, dropped,
    if_neg notWildcard]
  cases UnqualifiedName.ofString (String.ofList front) with
  | error fault => rfl
  | ok name => cases descriptor <;> rfl

/-- The name of the wildcards stands for fields alone and with empty parentheses for methods. -/
theorem readMember_wildcard {descriptor : List Char} (opened : ∀ c ∈ descriptor.head?, c = '(') :
    readMember ('*' :: descriptor) =
      if descriptor = [] then .ok (.field .every)
      else if descriptor = ['(', ')'] then .ok (.method .every)
      else .error .misplacedWildcard := by
  have taken : (['*'] ++ descriptor).takeWhile (· != '(') = ['*'] :=
    (Text.takeWhile_dropWhile_append _ (by simp) (fun c first => by rw [opened c first]; rfl)).1
  rw [List.singleton_append] at taken
  rw [readMember, taken]
  simp only [List.cons.injEq, true_and, if_true]

/-- A name other than that of the wildcards is read with what stands behind it, which is
nothing or a descriptor. -/
theorem readMember_append_eq_ok_iff {front descriptor : List Char} {target : Target}
    (unopened : '(' ∉ front) (opened : ∀ c ∈ descriptor.head?, c = '(')
    (notWildcard : front ≠ ['*']) :
    readMember (front ++ descriptor) = .ok target ↔
      ∃ name : UnqualifiedName, name.text.toList = front ∧
        (descriptor = [] ∧ readFieldName name = .ok target ∨
          descriptor ≠ [] ∧ readMethodName name descriptor = .ok target) := by
  rw [readMember_append unopened opened notWildcard]
  simp only [← UnqualifiedName.ofString_ofList_eq_ok_iff]
  cases UnqualifiedName.ofString (String.ofList front) with
  | error fault => simp
  | ok name => cases descriptor <;> simp

/-- The wildcards are read as those of fields and of methods. -/
theorem readMember_wildcard_eq_ok_iff {descriptor : List Char} {target : Target}
    (opened : ∀ c ∈ descriptor.head?, c = '(') :
    readMember ('*' :: descriptor) = .ok target ↔
      descriptor = [] ∧ target = .field .every ∨
        descriptor = ['(', ')'] ∧ target = .method .every := by
  rw [readMember_wildcard opened]
  by_cases alone : descriptor = []
  · simp [alone, @eq_comm _ target]
  · by_cases empty : descriptor = ['(', ')'] <;> simp [alone, empty, @eq_comm _ target]

/-- A text is a part without opening parentheses and what starts with one. -/
theorem exists_eq_append_opened (word : List Char) :
    ∃ front descriptor : List Char, word = front ++ descriptor ∧ '(' ∉ front ∧
      ∀ c ∈ descriptor.head?, c = '(' := by
  obtain ⟨front, descriptor, cut, passes, stops⟩ := Text.exists_cut (· != '(') word
  refine ⟨front, descriptor, cut, fun held => ?_, fun c first => ?_⟩
  · have impossible := passes _ held
    cases impossible
  · simpa using stops c first

/-- A name is not that of the wildcards when its characters are not. -/
theorem ne_wildcard_iff {name : UnqualifiedName} :
    name.text ≠ "*" ↔ name.text.toList ≠ ['*'] :=
  not_congr String.toList_inj.symm

/-- A member that is read from a word can be written, and its written form is the word. -/
theorem wellFormed_of_readMember {word : List Char} {target : Target}
    (blankless : Text.Blankless word) (read : readMember word = .ok target) :
    target.WellFormed ∧ target.render = ' ' :: word := by
  obtain ⟨front, descriptor, rfl, unopened, opened⟩ := exists_eq_append_opened word
  obtain ⟨nameBlankless, descriptorBlankless⟩ := Text.blankless_append.mp blankless
  -- The name of the wildcards is a valid name too, but never read as one.
  by_cases every : front = ['*']
  · subst every
    rcases (readMember_wildcard_eq_ok_iff opened).mp read with ⟨rfl, rfl⟩ | ⟨rfl, rfl⟩
    · exact ⟨.everyField, rfl⟩
    · exact ⟨.everyMethod, rfl⟩
  · obtain ⟨name, rfl, ⟨rfl, field⟩ | ⟨-, method⟩⟩ :=
      (readMember_append_eq_ok_iff unopened opened every).mp read
    · obtain ⟨allowed, rfl⟩ := readFieldName_eq_ok_iff.mp field
      have plain : ∀ c ∈ name.text.toList, c ≠ '<' ∧ c ≠ '>' ∧ c ≠ '(' ∧ c ≠ ')' := by
        intro c held
        obtain ⟨noLeft, noRight, noClosing⟩ := allowed c held
        exact ⟨noLeft, noRight, fun same => unopened (same ▸ held), noClosing⟩
      refine ⟨.field nameBlankless plain (ne_wildcard_iff.mpr every), ?_⟩
      simp [Target.render]
    · obtain ⟨angles, ⟨signature, described, constructs⟩, rfl⟩ :=
        readMethodName_eq_ok_iff.mp method
      rw [← String.toList_ofList (l := descriptor)] at descriptorBlankless described
      refine ⟨.method nameBlankless unopened (ne_wildcard_iff.mpr every) angles
        descriptorBlankless described constructs, ?_⟩
      simp [Target.render]

/-- A member that can be written is read from its written form. -/
theorem readMember_of_wellFormed {word : List Char} {target : Target}
    (wellFormed : target.WellFormed) (written : target.render = ' ' :: word) :
    readMember word = .ok target := by
  cases wellFormed with
  | classItself => cases written
  | everyField =>
      cases written
      exact (readMember_wildcard_eq_ok_iff (by simp)).mpr (.inl ⟨rfl, rfl⟩)
  | everyMethod =>
      cases written
      exact (readMember_wildcard_eq_ok_iff (by simp)).mpr (.inr ⟨rfl, rfl⟩)
  | @field name _ plain notWildcard =>
      cases written
      have unopened : '(' ∉ name.text.toList := fun held => (plain _ held).2.2.1 rfl
      have allowed : ∀ c ∈ name.text.toList, c ≠ '<' ∧ c ≠ '>' ∧ c ≠ ')' := by
        intro c held
        obtain ⟨noLeft, noRight, -, noClosing⟩ := plain c held
        exact ⟨noLeft, noRight, noClosing⟩
      rw [← List.append_nil name.text.toList,
        readMember_append_eq_ok_iff unopened (by simp) (ne_wildcard_iff.mp notWildcard)]
      exact ⟨name, rfl, .inl ⟨rfl, readFieldName_eq_ok_iff.mpr ⟨allowed, rfl⟩⟩⟩
  | @method name descriptor signature _ unopened notWildcard angles _ described constructs =>
      cases written
      obtain ⟨rest, opened⟩ := exists_cons_of_readMethod described
      have read : readMethodName name descriptor.toList =
          .ok (.method (.named name (some descriptor))) :=
        readMethodName_eq_ok_iff.mpr
          ⟨angles, ⟨signature, described, constructs⟩, by rw [String.ofList_toList]⟩
      exact (readMember_append_eq_ok_iff unopened (by simp [opened])
        (ne_wildcard_iff.mp notWildcard)).mpr ⟨name, rfl, .inr ⟨by simp [opened], read⟩⟩

/-- The words after an owner are read as a target when they are its written form. -/
theorem readTarget_eq_ok_iff {members : List (List Char)} {target : Target}
    (few : members.length ≤ 1) (blankless : ∀ word ∈ members, Text.Blankless word) :
    readTarget members = .ok target ↔
      target.WellFormed ∧ target.render = members.flatMap (' ' :: ·) := by
  match members, few with
  | [], _ =>
      rw [readTarget, List.flatMap_nil, Except.ok.injEq]
      constructor
      · rintro rfl
        exact ⟨.classItself, rfl⟩
      · rintro ⟨wellFormed, written⟩
        cases wellFormed <;> first | rfl | cases written
  | [word], _ =>
      rw [readTarget, List.flatMap_singleton]
      exact ⟨wellFormed_of_readMember (blankless word List.mem_cons_self),
        fun held => readMember_of_wellFormed held.1 held.2⟩

/-- Words are read as a directive when the first is its access word, the second is its owner
in either form, and the others are its target. -/
theorem readWords_eq_ok_iff {words : List (List Char)} {directive : Directive}
    (blankless : ∀ word ∈ words, Text.Blankless word) :
    readWords words = .ok directive ↔
      ∃ access owner members, words = access :: owner :: members ∧ members.length ≤ 1 ∧
        access = directive.access.keyword.toList ++
          (directive.toggles.flatMap fun toggle => toggle.render.toList) ∧
        directive.owner.text.toList = BinaryName.internalForm owner ∧
        directive.target.WellFormed ∧
        directive.target.render = members.flatMap (' ' :: ·) := by
  match words with
  | [] => simp [readWords]
  | [access] => simp [readWords]
  | access :: owner :: members =>
      rw [readWords]
      by_cases few : members.length ≤ 1
      · have targetBlankless : ∀ word ∈ members, Text.Blankless word :=
          fun word held => blankless word (by simp [held])
        rw [if_neg (by omega)]
        simp only [bind_eq_ok_iff, mapError_eq_ok_iff, BinaryName.ofQualified_eq_ok_iff,
          Prod.exists, readAccess_eq_ok_iff, readTarget_eq_ok_iff few targetBlankless]
        constructor
        · rintro ⟨level, toggles, written, name, qualified, target, held, same⟩
          cases same
          exact ⟨access, owner, members, rfl, few, written, qualified, held⟩
        · rintro ⟨_, _, _, same, -, written, qualified, held⟩
          cases same
          exact ⟨_, _, written, _, qualified, _, held, rfl⟩
      · rw [if_pos (by omega)]
        simp only [reduceCtorEq, false_iff]
        rintro ⟨_, _, _, same, atMostOne, -⟩
        cases same
        exact few atMostOne

end Rule

end ClassAccess
