import ClassAccess.Proofs.Rule.Grammar

/-!
# What is wrong with a rule line

Four parts of a line are checked one after the other: the number of its words, its
access word, its owner and its member. `Rule.PartFault` says of each part what is
wrong with it, whatever the others are, and `Rule.FirstFault` is what is wrong with
the first part that has a fault. An access word is cut at its signs, and the first
pair of a sign and a text that names no modifier is what is wrong with it.

`Directive.parse_eq_error_iff` says that a line is refused with its first fault.
`Directive.parse_refused` tells the lines that are reported for an unknown modifier
from the malformed ones.

What is wrong with a name or with a descriptor is what their own checks say.
-/

namespace ClassAccess

namespace Rule

/-- A text without signs. -/
def Unsigned (text : List Char) : Prop := ∀ c ∈ text, c ≠ '+' ∧ c ≠ '-'

/-- How a word is cut at its signs: a text without signs, and then signs, each with the text up to
the next one. -/
structure CutAtSigns (word level : List Char) (pairs : List (Char × List Char)) : Prop where
  joined : word = level ++ pairs.flatMap fun pair => pair.1 :: pair.2
  unsigned : Unsigned level
  signs : ∀ pair ∈ pairs, (pair.1 = '+' ∨ pair.1 = '-') ∧ Unsigned pair.2

/-- A sign with the short name of a modifier behind it. -/
def NamesModifier (pair : Char × List Char) : Prop :=
  ∃ modifier : Modifier, pair.2 = modifier.code.toList

/-- What is wrong with a sign and the text behind it. -/
inductive PairFault : Char × List Char → LineFault → Prop where
  | dangling {sign : Char} : PairFault (sign, []) (.danglingSign sign)
  | unknown {sign : Char} {code : List Char} (filled : code ≠ [])
      (unregistered : ∀ modifier : Modifier, code ≠ modifier.code.toList) :
      PairFault (sign, code) (.unknownModifier (String.ofList code))

/-- What is wrong with an access word: its level, or else the first of its pairs with a fault. -/
inductive AccessFault : List Char → LineFault → Prop where
  | level {word level : List Char} {pairs : List (Char × List Char)}
      (cut : CutAtSigns word level pairs)
      (unknown : ∀ known : AccessLevel, level ≠ known.keyword.toList) :
      AccessFault word (.unknownLevel (String.ofList level))
  | pair {word : List Char} {level : AccessLevel} {before after : List (Char × List Char)}
      {pair : Char × List Char} {fault : LineFault}
      (cut : CutAtSigns word level.keyword.toList (before ++ pair :: after))
      (wellFormed : ∀ earlier ∈ before, NamesModifier earlier) (bad : PairFault pair fault) :
      AccessFault word fault

/-- What is wrong with a method of some name and descriptor. -/
inductive MethodFault (name : UnqualifiedName) (descriptor : List Char) : LineFault → Prop where
  | name (angled : ∃ c ∈ name.text.toList, c = '<' ∨ c = '>')
      (ordinary : name.text ≠ "<init>" ∧ name.text ≠ "<clinit>") :
      MethodFault name descriptor (.notAMethod name.text)
  | staticInitializer (initializes : name.text = "<clinit>") :
      MethodFault name descriptor .staticInitializer
  | descriptor {fault : DescriptorFault}
      (angles : name.text = "<init>" ∨ ∀ c ∈ name.text.toList, c ≠ '<' ∧ c ≠ '>')
      (bad : Descriptor.whole Descriptor.readMethod descriptor = .error fault) :
      MethodFault name descriptor (.badDescriptor (String.ofList descriptor) fault)
  | constructor {signature : MethodType} (constructs : name.text = "<init>")
      (described : Descriptor.whole Descriptor.readMethod descriptor = .ok signature)
      (returns : signature.result ≠ none) :
      MethodFault name descriptor .constructorWithResult

/-- What is wrong with a word for a member. Its name ends at the first opening parenthesis. -/
inductive MemberFault : List Char → LineFault → Prop where
  | wildcard {descriptor : List Char} (other : descriptor ≠ [')']) :
      MemberFault ('*' :: '(' :: descriptor) .misplacedWildcard
  | name {front descriptor : List Char} {fault : NameFault} (unopened : '(' ∉ front)
      (opened : ∀ c ∈ descriptor.head?, c = '(')
      (bad : UnqualifiedName.fault? front = some fault) :
      MemberFault (front ++ descriptor) (.badName fault)
  | field {name : UnqualifiedName} (unopened : '(' ∉ name.text.toList)
      (bracketed : ∃ c ∈ name.text.toList, c = '<' ∨ c = '>' ∨ c = ')') :
      MemberFault name.text.toList (.notAField name.text)
  | method {name : UnqualifiedName} {descriptor : List Char} {fault : LineFault}
      (unopened : '(' ∉ name.text.toList) (notWildcard : name.text ≠ "*")
      (bad : MethodFault name ('(' :: descriptor) fault) :
      MemberFault (name.text.toList ++ '(' :: descriptor) fault

/-- The parts of a line, in the order in which they are checked. -/
inductive Part where
  | count
  | access
  | owner
  | member
deriving DecidableEq, Repr

/-- The place of a part in that order. -/
def Part.position : Part → Nat
  | count => 0
  | access => 1
  | owner => 2
  | member => 3

/-- What is wrong with one part of the words of a line, whatever the other parts are. -/
inductive PartFault : List (List Char) → Part → LineFault → Prop where
  | count {words : List (List Char)} (notTwo : words.length ≠ 2) (notThree : words.length ≠ 3) :
      PartFault words .count (.wordCount words.length)
  | access {access : List Char} {others : List (List Char)} {fault : LineFault}
      (bad : AccessFault access fault) : PartFault (access :: others) .access fault
  | owner {access owner : List Char} {others : List (List Char)} {fault : NameFault}
      (bad : BinaryName.fault? (BinaryName.internalForm owner) = some fault) :
      PartFault (access :: owner :: others) .owner (.badName fault)
  | member {access owner member : List Char} {others : List (List Char)} {fault : LineFault}
      (bad : MemberFault member fault) :
      PartFault (access :: owner :: member :: others) .member fault

/-- What is wrong with the first part that has a fault. -/
def FirstFault (words : List (List Char)) (fault : LineFault) : Prop :=
  ∃ part, PartFault words part fault ∧
    ∀ earlier : Part, earlier.position < part.position → ∀ other, ¬PartFault words earlier other

/-! ### The access word -/

/-- Signs are plus and minus. -/
theorem isSign_iff {c : Char} : isSign c = true ↔ c = '+' ∨ c = '-' := by
  rw [isSign, Bool.or_eq_true, beq_iff_eq, beq_iff_eq]

/-- All other characters are no signs. -/
theorem not_isSign_iff {c : Char} : (!isSign c) = true ↔ c ≠ '+' ∧ c ≠ '-' := by
  rw [Bool.not_eq_true', ← Bool.not_eq_true, isSign_iff, not_or]

/-- Signs with the texts behind them start with a sign. -/
theorem head?_pairs {pairs : List (Char × List Char)}
    (signs : ∀ pair ∈ pairs, (pair.1 = '+' ∨ pair.1 = '-') ∧ Unsigned pair.2) :
    ∀ c ∈ (pairs.flatMap fun pair => pair.1 :: pair.2).head?, (!isSign c) = false := by
  cases pairs with
  | nil => simp
  | cons pair later =>
      intro c first
      cases first
      rw [Bool.not_eq_false', isSign_iff]
      exact (signs pair List.mem_cons_self).1

/-- Every word is cut at its signs. -/
theorem exists_cutAtSigns (word : List Char) : ∃ level pairs, CutAtSigns word level pairs := by
  induction word with
  | nil => exact ⟨[], [], rfl, List.forall_mem_nil _, List.forall_mem_nil _⟩
  | cons c word ih =>
      obtain ⟨level, pairs, rfl, unsigned, signs⟩ := ih
      by_cases signed : c = '+' ∨ c = '-'
      · refine ⟨[], (c, level) :: pairs, rfl, List.forall_mem_nil _, ?_⟩
        exact List.forall_mem_cons.mpr ⟨⟨signed, unsigned⟩, signs⟩
      · rw [not_or] at signed
        exact ⟨c :: level, pairs, rfl, List.forall_mem_cons.mpr ⟨signed, unsigned⟩, signs⟩

/-- Reads a sign and the text behind it. -/
def readPair (pair : Char × List Char) : Except LineFault Toggle :=
  if pair.2.isEmpty then .error (.danglingSign pair.1)
  else
    match Modifier.ofCode? (String.ofList pair.2) with
    | none => .error (.unknownModifier (String.ofList pair.2))
    | some modifier => .ok ⟨actionOf pair.1, modifier⟩

/-- Toggles are read one pair after the other. -/
theorem readToggles_flatMap {pairs : List (Char × List Char)}
    (signs : ∀ pair ∈ pairs, (pair.1 = '+' ∨ pair.1 = '-') ∧ Unsigned pair.2) :
    readToggles (pairs.flatMap fun pair => pair.1 :: pair.2) = pairs.mapM readPair := by
  induction pairs with
  | nil =>
      rw [List.flatMap_nil, readToggles, List.mapM_nil]
      rfl
  | cons pair later ih =>
      obtain ⟨sign, code⟩ := pair
      rw [List.forall_mem_cons] at signs
      obtain ⟨⟨-, unsigned⟩, signs⟩ := signs
      obtain ⟨taken, dropped⟩ := Text.takeWhile_dropWhile_append _
        (fun c held => not_isSign_iff.mpr (unsigned c held)) (head?_pairs signs)
      rw [List.flatMap_cons, List.cons_append, readToggles, taken, dropped, ih signs,
        List.mapM_cons, readPair]
      split
      · rfl
      · cases Modifier.ofCode? (String.ofList code) with
        | none => rfl
        | some modifier => cases later.mapM readPair <;> rfl

/-- A pair is read when it names a modifier. -/
theorem exists_readPair_eq_ok_iff {pair : Char × List Char} :
    (∃ toggle, readPair pair = .ok toggle) ↔ NamesModifier pair := by
  obtain ⟨sign, code⟩ := pair
  simp only [NamesModifier, ← Modifier.ofCode?_ofList_eq_some_iff, readPair]
  by_cases empty : code = []
  · subst empty
    simp only [List.isEmpty_nil, if_true, reduceCtorEq, exists_false, false_iff, not_exists]
    intro modifier known
    exact (code_unsigned modifier).1 (Modifier.ofCode?_ofList_eq_some_iff.mp known).symm
  · rw [if_neg (by simpa using empty)]
    cases Modifier.ofCode? (String.ofList code) with
    | none => simp
    | some modifier => exact ⟨fun _ => ⟨modifier, rfl⟩, fun _ => ⟨_, rfl⟩⟩

/-- A pair is refused with what is wrong with it. -/
theorem readPair_eq_error_iff {pair : Char × List Char} {fault : LineFault} :
    readPair pair = .error fault ↔ PairFault pair fault := by
  constructor
  · obtain ⟨sign, code⟩ := pair
    intro refused
    rw [readPair] at refused
    split at refused
    · next empty =>
        cases refused
        rw [List.isEmpty_iff] at empty
        cases empty
        exact .dangling
    next filled =>
    split at refused
    · next unknown =>
        cases refused
        refine .unknown (by simpa using filled) fun modifier same => ?_
        rw [Modifier.ofCode?_ofList_eq_some_iff.mpr same] at unknown
        cases unknown
    · cases refused
  · intro bad
    cases bad with
    | dangling => rfl
    | @unknown sign code filled unregistered =>
        rw [readPair, if_neg (by simpa using filled)]
        cases known : Modifier.ofCode? (String.ofList code) with
        | none => rfl
        | some modifier =>
            exact absurd (Modifier.ofCode?_ofList_eq_some_iff.mp known) (unregistered modifier)

/-- An access word is read by its level and its pairs. -/
theorem CutAtSigns.readAccess_eq {word level : List Char} {pairs : List (Char × List Char)}
    (cut : CutAtSigns word level pairs) :
    readAccess word =
      match AccessLevel.ofKeyword? (String.ofList level) with
      | none => .error (.unknownLevel (String.ofList level))
      | some access => (pairs.mapM readPair).map (access, ·) := by
  obtain ⟨taken, dropped⟩ := Text.takeWhile_dropWhile_append _
    (fun c held => not_isSign_iff.mpr (cut.unsigned c held)) (head?_pairs cut.signs)
  rw [cut.joined, readAccess, taken, dropped]
  cases AccessLevel.ofKeyword? (String.ofList level) with
  | none => rfl
  | some access => exact congrArg (Except.map (access, ·)) (readToggles_flatMap cut.signs)

/-- An access word is refused with what is wrong with it. -/
theorem readAccess_eq_error_iff {word : List Char} {fault : LineFault} :
    readAccess word = .error fault ↔ AccessFault word fault := by
  constructor
  · intro refused
    obtain ⟨level, pairs, cut⟩ := exists_cutAtSigns word
    rw [cut.readAccess_eq] at refused
    cases known : AccessLevel.ofKeyword? (String.ofList level) with
    | none =>
        rw [known] at refused
        cases refused
        refine .level cut fun other same => ?_
        rw [AccessLevel.ofKeyword?_ofList_eq_some_iff.mpr same] at known
        cases known
    | some access =>
        rw [known, map_eq_error_iff, mapM_eq_error_iff] at refused
        obtain ⟨before, pair, after, rfl, read, bad⟩ := refused
        rw [AccessLevel.ofKeyword?_ofList_eq_some_iff.mp known] at cut
        exact .pair cut (fun earlier held => exists_readPair_eq_ok_iff.mp (read earlier held))
          (readPair_eq_error_iff.mp bad)
  · intro bad
    cases bad with
    | @level level _ cut unknown =>
        rw [cut.readAccess_eq]
        cases known : AccessLevel.ofKeyword? (String.ofList level) with
        | none => rfl
        | some access =>
            exact absurd (AccessLevel.ofKeyword?_ofList_eq_some_iff.mp known) (unknown access)
    | @pair level before after pair _ cut wellFormed bad =>
        rw [cut.readAccess_eq, String.ofList_toList, AccessLevel.ofKeyword?_keyword]
        have refused : (before ++ pair :: after).mapM readPair = .error fault :=
          mapM_eq_error_iff.mpr ⟨before, pair, after, rfl,
            fun earlier held => exists_readPair_eq_ok_iff.mpr (wellFormed earlier held),
            readPair_eq_error_iff.mpr bad⟩
        exact map_eq_error_iff.mpr refused

/-! ### Members -/

/-- A name is refused as that of a field for one of three characters. -/
theorem readFieldName_eq_error_iff {name : UnqualifiedName} {fault : LineFault} :
    readFieldName name = .error fault ↔
      (∃ c ∈ name.text.toList, c = '<' ∨ c = '>' ∨ c = ')') ∧ fault = .notAField name.text := by
  have forbidden : name.text.toList.any isForbiddenInField = true ↔
      ∃ c ∈ name.text.toList, c = '<' ∨ c = '>' ∨ c = ')' := by
    simp [isForbiddenInField, or_assoc]
  rw [← forbidden, readFieldName]
  cases name.text.toList.any isForbiddenInField <;> simp [eq_comm]

/-- Names with angle brackets other than the two special ones are not those of methods. -/
theorem isMethodName_eq_false_iff {name : UnqualifiedName} :
    name.isMethodName = false ↔ (∃ c ∈ name.text.toList, c = '<' ∨ c = '>') ∧
      name.text ≠ "<init>" ∧ name.text ≠ "<clinit>" := by
  have angled : name.text.toList.any UnqualifiedName.isAngle = true ↔
      ∃ c ∈ name.text.toList, c = '<' ∨ c = '>' := by
    simp [UnqualifiedName.isAngle]
  rw [← angled, UnqualifiedName.isMethodName, UnqualifiedName.isSpecial, Bool.or_eq_false_iff,
    Bool.or_eq_false_iff, decide_eq_false_iff_not, decide_eq_false_iff_not, eq_constructor_iff,
    eq_staticInitializer_iff, Bool.not_eq_false', and_comm]

/-- A name with a descriptor is refused with what is wrong with the method. -/
theorem readMethodName_eq_error_iff {name : UnqualifiedName} {descriptor : List Char}
    {fault : LineFault} :
    readMethodName name descriptor = .error fault ↔ MethodFault name descriptor fault := by
  rw [readMethodName]
  constructor
  · intro refused
    split at refused
    · next unnamed =>
        cases refused
        rw [Bool.not_eq_true', isMethodName_eq_false_iff] at unnamed
        exact .name unnamed.1 unnamed.2
    next named =>
    split at refused
    · next initializes =>
        cases refused
        exact .staticInitializer (eq_staticInitializer_iff.mp initializes)
    next plain =>
    rw [Bool.not_eq_true', Bool.not_eq_false] at named
    have angles := isMethodName_iff.mp ⟨named, plain⟩
    split at refused
    · next bad =>
        cases refused
        exact .descriptor angles bad
    next signature described =>
    split at refused
    · next constructs =>
        cases refused
        exact .constructor (eq_constructor_iff.mp constructs.1) described
          (Option.isSome_iff_ne_none.mp constructs.2)
    · cases refused
  · intro bad
    cases bad with
    | name angled ordinary =>
        rw [if_pos (by rw [Bool.not_eq_true', isMethodName_eq_false_iff]; exact ⟨angled, ordinary⟩)]
    | staticInitializer initializes =>
        obtain rfl := eq_staticInitializer_iff.mpr initializes
        rfl
    | descriptor angles bad =>
        obtain ⟨named, plain⟩ := isMethodName_iff.mpr angles
        rw [if_neg (by simp [named]), if_neg plain, bad]
    | constructor constructs described returns =>
        obtain ⟨named, plain⟩ := isMethodName_iff.mpr (.inl constructs)
        rw [if_neg (by simp [named]), if_neg plain, described]
        exact if_pos ⟨eq_constructor_iff.mpr constructs, Option.isSome_iff_ne_none.mpr returns⟩

/-- A word for a member is refused with what is wrong with it. -/
theorem readMember_eq_error_iff {word : List Char} {fault : LineFault} :
    readMember word = .error fault ↔ MemberFault word fault := by
  constructor
  · intro refused
    obtain ⟨front, descriptor, rfl, unopened, opened⟩ := exists_eq_append_opened word
    by_cases every : front = ['*']
    · subst every
      rw [List.singleton_append, readMember_wildcard opened] at refused
      split at refused
      · cases refused
      next filled =>
      split at refused
      · cases refused
      next other =>
      cases refused
      obtain ⟨first, rest, rfl⟩ := List.exists_cons_of_ne_nil filled
      cases opened first rfl
      exact .wildcard fun same => other (by rw [same])
    · rw [readMember_append unopened opened every] at refused
      cases named : UnqualifiedName.ofString (String.ofList front) with
      | error bad =>
          rw [named] at refused
          cases refused
          exact .name unopened opened (UnqualifiedName.ofString_ofList_eq_error_iff.mp named)
      | ok name =>
          rw [named] at refused
          obtain rfl := UnqualifiedName.ofString_ofList_eq_ok_iff.mp named
          dsimp only at refused
          split at refused
          · next alone =>
              obtain ⟨bracketed, rfl⟩ := readFieldName_eq_error_iff.mp refused
              subst alone
              rw [List.append_nil]
              exact .field unopened bracketed
          · next filled =>
              obtain ⟨first, rest, rfl⟩ := List.exists_cons_of_ne_nil filled
              cases opened first rfl
              exact .method unopened (ne_wildcard_iff.mpr every)
                (readMethodName_eq_error_iff.mp refused)
  · intro bad
    cases bad with
    | wildcard other =>
        rw [readMember_wildcard (by simp), if_neg (by simp), if_neg (by simpa using other)]
    | @name front descriptor fault unopened opened bad =>
        have notWildcard : front ≠ ['*'] := by
          rintro rfl
          cases bad
        rw [readMember_append unopened opened notWildcard,
          UnqualifiedName.ofString_ofList_eq_error_iff.mpr bad]
    | @field name unopened bracketed =>
        have notWildcard : name.text.toList ≠ ['*'] := by
          intro every
          obtain ⟨c, held, bracket⟩ := bracketed
          rw [every, List.mem_singleton] at held
          subst held
          revert bracket
          decide
        rw [← List.append_nil name.text.toList, readMember_append unopened (by simp) notWildcard,
          UnqualifiedName.ofString_ofList_eq_ok_iff.mpr rfl]
        exact readFieldName_eq_error_iff.mpr ⟨bracketed, rfl⟩
    | @method name descriptor _ unopened notWildcard bad =>
        rw [readMember_append unopened (by simp) (ne_wildcard_iff.mp notWildcard),
          UnqualifiedName.ofString_ofList_eq_ok_iff.mpr rfl]
        exact readMethodName_eq_error_iff.mpr bad

/-! ### Lines -/

/-- A part without faults. -/
def Sound (words : List (List Char)) (part : Part) : Prop := ∀ fault, ¬PartFault words part fault

/-- What holds of all parts holds of each of the four. -/
theorem Part.forall_iff {holds : Part → Prop} :
    (∀ part, holds part) ↔ holds .count ∧ holds .access ∧ holds .owner ∧ holds .member := by
  constructor
  · intro all
    exact ⟨all .count, all .access, all .owner, all .member⟩
  · rintro ⟨count, access, owner, member⟩ part
    cases part <;> assumption

/-- What holds of some part holds of one of the four. -/
theorem Part.exists_iff {holds : Part → Prop} :
    (∃ part, holds part) ↔ holds .count ∨ holds .access ∨ holds .owner ∨ holds .member := by
  constructor
  · rintro ⟨part, held⟩
    cases part <;> simp only [held, true_or, or_true]
  · rintro (held | held | held | held)
    all_goals exact ⟨_, held⟩

/-- The first part with a fault is found by looking at one part after the other. -/
theorem firstFault_iff {words : List (List Char)} {fault : LineFault} :
    FirstFault words fault ↔
      PartFault words .count fault ∨ Sound words .count ∧
        (PartFault words .access fault ∨ Sound words .access ∧
          (PartFault words .owner fault ∨ Sound words .owner ∧
            PartFault words .member fault)) := by
  simp only [FirstFault, Part.exists_iff, Part.forall_iff, Part.position, Sound, Nat.lt_irrefl,
    Nat.not_lt_zero, Nat.zero_lt_succ, Nat.succ_lt_succ_iff, false_imp_iff, true_imp_iff,
    and_true]
  tauto

/-- The number of words is refused unless it is two or three. -/
theorem sound_count_iff {words : List (List Char)} :
    Sound words .count ↔ words.length = 2 ∨ words.length = 3 := by
  constructor
  · intro sound
    by_contra other
    rw [not_or] at other
    exact sound _ (.count other.1 other.2)
  · rintro counted _ (⟨notTwo, notThree⟩ | _)
    exact counted.elim notTwo notThree

/-- Other numbers of words are all that is said about a line that has them. -/
theorem readWords_of_count {words : List (List Char)} (notTwo : words.length ≠ 2)
    (notThree : words.length ≠ 3) : readWords words = .error (.wordCount words.length) := by
  match words with
  | [] => rfl
  | [access] => rfl
  | access :: owner :: members =>
      rw [readWords, if_pos]
      simp only [List.length_cons] at notTwo notThree
      omega

section Parts

variable {access owner : List Char} {members : List (List Char)} {fault : LineFault}

/-- The first word is the access word. -/
theorem readAccess_eq_error_iff_partFault (others : List (List Char)) :
    readAccess access = .error fault ↔ PartFault (access :: others) .access fault := by
  rw [readAccess_eq_error_iff]
  refine ⟨.access, fun bad => ?_⟩
  cases bad with
  | access bad => exact bad

/-- The second word is the owner. -/
theorem ofQualified_eq_error_iff_partFault (access : List Char) (others : List (List Char)) :
    (BinaryName.ofQualified (String.ofList owner)).mapError .badName = .error fault ↔
      PartFault (access :: owner :: others) .owner fault := by
  simp only [mapError_eq_error_iff, BinaryName.ofQualified_eq_error_iff]
  constructor
  · rintro ⟨nameFault, bad, rfl⟩
    exact .owner bad
  · intro bad
    cases bad with
    | owner bad => exact ⟨_, bad, rfl⟩

/-- The third word is the member, if there is one. -/
theorem readTarget_eq_error_iff_partFault (access owner : List Char) :
    readTarget members = .error fault ↔ PartFault (access :: owner :: members) .member fault := by
  cases members with
  | nil =>
      constructor
      · intro refused
        cases refused
      · intro bad
        cases bad
  | cons member others =>
      rw [readTarget, readMember_eq_error_iff]
      refine ⟨.member, fun bad => ?_⟩
      cases bad with
      | member bad => exact bad

end Parts

/-- Words are refused with what is wrong with the first part that has a fault. -/
theorem readWords_eq_error_iff {words : List (List Char)} {fault : LineFault} :
    readWords words = .error fault ↔ FirstFault words fault := by
  rw [firstFault_iff]
  by_cases counted : words.length = 2 ∨ words.length = 3
  · have sound := sound_count_iff.mpr counted
    simp only [sound, sound fault, false_or, true_and]
    match words, counted with
    | access :: owner :: members, counted =>
        rw [readWords, if_neg (by simp only [List.length_cons] at counted; omega)]
        -- No step depends on the results of those before it, so that each is stated on its own.
        refine (bind_eq_error_iff_of_forall fun read => bind_eq_error_iff_of_forall fun name =>
          bind_eq_error_iff_of_forall fun target => iff_false_intro fun made => ?_).trans ?_
        · cases made
        · simp only [readAccess_eq_error_iff_partFault (owner :: members),
            ofQualified_eq_error_iff_partFault access members,
            readTarget_eq_error_iff_partFault access owner, ne_eq, and_false, or_false, Sound]
  · have unsound : ¬Sound words .count := fun sound => counted (sound_count_iff.mp sound)
    simp only [unsound, false_and, or_false]
    rw [not_or] at counted
    rw [readWords_of_count counted.1 counted.2]
    constructor
    · intro refused
      cases refused
      exact .count counted.1 counted.2
    · intro bad
      cases bad with
      | count => rfl

/-! ### Unknown modifiers -/

/-- Lines of two or three words that start with a known level, and in which the first sign without
the short name of a modifier has some other code behind it. -/
def HasUnknownModifier (line code : List Char) : Prop :=
  ∃ access others, Text.AreWords line (access :: others) ∧
    (others.length = 1 ∨ others.length = 2) ∧
    ∃ (level : AccessLevel) (sign : Char) (before after : List (Char × List Char)),
      CutAtSigns access level.keyword.toList (before ++ (sign, code) :: after) ∧
      (∀ earlier ∈ before, NamesModifier earlier) ∧
      code ≠ [] ∧ ∀ modifier : Modifier, code ≠ modifier.code.toList

/-- An access word is refused for a modifier that its first bad pair should name. -/
theorem accessFault_unknownModifier_iff {word : List Char} {code : String} :
    AccessFault word (.unknownModifier code) ↔
      ∃ (level : AccessLevel) (sign : Char) (before after : List (Char × List Char)),
        CutAtSigns word level.keyword.toList (before ++ (sign, code.toList) :: after) ∧
        (∀ earlier ∈ before, NamesModifier earlier) ∧
        code.toList ≠ [] ∧ ∀ modifier : Modifier, code.toList ≠ modifier.code.toList := by
  constructor
  · intro bad
    cases bad with
    | pair cut wellFormed bad =>
        cases bad with
        | unknown filled unregistered =>
            rw [String.toList_ofList]
            exact ⟨_, _, _, _, cut, wellFormed, filled, unregistered⟩
  · rintro ⟨level, sign, before, after, cut, wellFormed, filled, unregistered⟩
    refine .pair cut wellFormed ?_
    have bad : PairFault (sign, code.toList) (.unknownModifier (String.ofList code.toList)) :=
      .unknown filled unregistered
    rwa [String.ofList_toList] at bad

/-- Members are not refused for a modifier. -/
theorem MemberFault.ne_unknownModifier {word : List Char} {fault : LineFault} {code : String}
    (bad : MemberFault word fault) : fault ≠ .unknownModifier code := by
  rintro rfl
  cases bad with
  | method unopened notWildcard bad => cases bad

/-- Only the access word is refused for a modifier. -/
theorem PartFault.eq_access {words : List (List Char)} {part : Part} {code : String}
    (bad : PartFault words part (.unknownModifier code)) : part = .access := by
  cases bad with
  | access bad => rfl
  | member bad => exact absurd rfl bad.ne_unknownModifier

/-- Words are refused for a modifier when their number is right and their first is refused for
it. -/
theorem firstFault_unknownModifier_iff {words : List (List Char)} {code : String} :
    FirstFault words (.unknownModifier code) ↔
      ∃ access others, words = access :: others ∧ (others.length = 1 ∨ others.length = 2) ∧
        AccessFault access (.unknownModifier code) := by
  constructor
  · rintro ⟨part, bad, sound⟩
    cases bad.eq_access
    have counted := sound_count_iff.mp (sound .count (by decide))
    cases bad with
    | @access access others _ bad =>
        rw [List.length_cons] at counted
        exact ⟨access, others, rfl, by omega, bad⟩
  · rintro ⟨access, others, rfl, counted, bad⟩
    refine firstFault_iff.mpr (.inr ⟨sound_count_iff.mpr ?_, .inl (.access bad)⟩)
    rw [List.length_cons]
    omega

end Rule

/-- A line is refused with itself and what is wrong with the first part of its words that has a
fault. -/
theorem Directive.parse_eq_error_iff {line : String} {error : LineError} :
    parse line = .error error ↔ error.line = line ∧
      ∃ words, Text.AreWords line.toList words ∧ Rule.FirstFault words error.fault := by
  simp only [parse, mapError_eq_error_iff, Rule.readWords_eq_error_iff, ← Text.words_eq_iff,
    exists_eq_left']
  constructor
  · rintro ⟨fault, bad, rfl⟩
    exact ⟨rfl, bad⟩
  · rintro ⟨rfl, bad⟩
    exact ⟨error.fault, bad, rfl⟩

/-- A line is refused for a modifier when it has an unknown one. -/
theorem Directive.parse_eq_unknownModifier_iff {line code : String} :
    parse line = .error ⟨line, .unknownModifier code⟩ ↔
      Rule.HasUnknownModifier line.toList code.toList := by
  simp only [parse_eq_error_iff, Rule.firstFault_unknownModifier_iff,
    Rule.accessFault_unknownModifier_iff, true_and, Rule.HasUnknownModifier]
  constructor
  · rintro ⟨_, are, access, others, rfl, held⟩
    exact ⟨access, others, are, held⟩
  · rintro ⟨access, others, are, held⟩
    exact ⟨_, are, access, others, rfl, held⟩

/-- Errors are worded as those of unknown modifiers or as those of malformed lines. -/
theorem LineError.message_of_ne_unknownModifier {error : LineError}
    (other : ∀ code, error.fault ≠ .unknownModifier code) :
    error.message = "Malformed directive '" ++ error.line ++ "': " ++ error.fault.reason := by
  rw [message]
  split
  · next code unknown => exact absurd unknown (other code)
  · rfl

/-- A refused line is reported unchanged, with what is wrong with the first of its parts that has
a fault: the number of its words, its access word, its owner and its member. It is told apart
whether the line has an unknown modifier or is malformed. -/
theorem Directive.parse_refused {line : String} {error : LineError}
    (refused : parse line = .error error) :
    error.line = line ∧
      (∃ words, Text.AreWords line.toList words ∧ Rule.FirstFault words error.fault) ∧
      (∀ code, error.fault = .unknownModifier code ↔
        Rule.HasUnknownModifier line.toList code.toList) ∧
      (∀ code, Rule.HasUnknownModifier line.toList code.toList →
        error.message =
          "Unknown modifier '" ++ code ++ "' in directive '" ++ line ++ "'") ∧
      ((∀ code, ¬Rule.HasUnknownModifier line.toList code) →
        error.message = "Malformed directive '" ++ line ++ "': " ++ error.fault.reason) := by
  obtain ⟨same, first⟩ := parse_eq_error_iff.mp refused
  have unknown : ∀ code, error.fault = .unknownModifier code ↔
      Rule.HasUnknownModifier line.toList code.toList := by
    intro code
    rw [← parse_eq_unknownModifier_iff, refused, Except.error.injEq, ← same]
    obtain ⟨line, fault⟩ := error
    rw [LineError.mk.injEq, eq_self, true_and]
  refine ⟨same, first, unknown, fun code has => ?_, fun none => ?_⟩
  · rw [LineError.message, (unknown code).mpr has, same]
  · rw [LineError.message_of_ne_unknownModifier, same]
    exact fun code has => none _ ((unknown code).mp has)

/-- A line whose access word, owner and member are all wrong is reported for its access word, and
there for the first of two bad signs. -/
theorem Directive.parse_refused_everywhere :
    parse "public+f-x+ a..B *(" = .error ⟨"public+f-x+ a..B *(", .unknownModifier "x"⟩ ∧
      Rule.HasUnknownModifier "public+f-x+ a..B *(".toList "x".toList ∧
      LineError.message ⟨"public+f-x+ a..B *(", .unknownModifier "x"⟩ =
        "Unknown modifier 'x' in directive 'public+f-x+ a..B *('" := by
  have cut : Rule.CutAtSigns "public+f-x+".toList AccessLevel.publicAccess.keyword.toList
      ([('+', ['f'])] ++ ('-', ['x']) :: [('+', [])]) :=
    ⟨by decide, fun c held => Rule.not_isSign_iff.mp (Rule.keyword_unsigned _ c held),
      by simp [Rule.Unsigned]⟩
  have unknown : Rule.HasUnknownModifier "public+f-x+ a..B *(".toList "x".toList :=
    ⟨_, ["a..B".toList, "*(".toList], Text.words_eq_iff.mp (by decide), .inr rfl, _, _, _, _, cut,
      List.forall_mem_singleton.mpr ⟨.final, by decide⟩, by decide,
      fun modifier => by cases modifier; decide⟩
  have refused := parse_eq_unknownModifier_iff.mpr unknown
  obtain ⟨-, -, -, reported, -⟩ := parse_refused refused
  exact ⟨refused, unknown, reported "x" unknown⟩

end ClassAccess
