import ClassAccess.Descriptor.Reader
import ClassAccess.Rule.Directive
import ClassAccess.Text.Blank

/-!
# The written form of directives

A rule line has two or three words: an access specification, an owner and
possibly a member.

    line    = access owner [member]
    access  = level (("+" | "-") modifier)*
    level   = "public" | "protected" | "default" | "private"
    member  = "*" | "*()" | field | method descriptor

Faults are found from left to right, and each is reported with the whole line.
-/

namespace ClassAccess

/-- What is wrong with a rule line. -/
inductive LineFault where
  | wordCount (count : Nat)
  | unknownLevel (word : String)
  | danglingSign (sign : Char)
  | unknownModifier (code : String)
  | badName (fault : NameFault)
  | misplacedWildcard
  | notAField (name : String)
  | notAMethod (name : String)
  | staticInitializer
  | badDescriptor (text : String) (fault : DescriptorFault)
  | constructorWithResult
deriving DecidableEq, Repr

namespace LineFault

/-- The wording of a fault. -/
def reason : LineFault → String
  | wordCount count => "expected 2 or 3 tokens, found " ++ toString count
  | unknownLevel word => "unknown access level '" ++ word ++ "'"
  | danglingSign sign => "'" ++ sign.toString ++ "' is not followed by a modifier"
  | unknownModifier code => "unknown modifier '" ++ code ++ "'"
  | badName fault => fault.message
  | misplacedWildcard => "wildcards are '*' for fields or '*()' for methods"
  | notAField name => "'" ++ name ++ "' is not a valid field name"
  | notAMethod name => "'" ++ name ++ "' is not a valid method name"
  | staticInitializer => "static initializers have no access to change"
  | badDescriptor text fault => "bad descriptor '" ++ text ++ "': " ++ fault.message
  | constructorWithResult => "constructors must return 'V'"

end LineFault

/-- A rule line and what is wrong with it. -/
structure LineError where
  line : String
  fault : LineFault
deriving DecidableEq, Repr

namespace LineError

/-- The wording of an error. An unknown modifier is told apart from a malformed line. -/
def message (error : LineError) : String :=
  match error.fault with
  | .unknownModifier code => "Unknown modifier '" ++ code ++ "' in directive '" ++ error.line ++ "'"
  | fault => "Malformed directive '" ++ error.line ++ "': " ++ fault.reason

end LineError

namespace Rule

/-- Whether a character starts a toggle. -/
def isSign (c : Char) : Bool := c == '+' || c == '-'

/-- The action that a sign stands for. -/
def actionOf (sign : Char) : ToggleAction := if sign == '+' then .add else .remove

/-- Reads the toggles that follow an access level, each a sign and a modifier. -/
def readToggles (input : List Char) : Except LineFault (List Toggle) :=
  match input with
  | [] => .ok []
  | sign :: rest =>
      let code := rest.takeWhile fun c => !isSign c
      if code.isEmpty then .error (.danglingSign sign)
      else
        match Modifier.ofCode? (String.ofList code) with
        | none => .error (.unknownModifier (String.ofList code))
        | some modifier =>
            (readToggles (rest.dropWhile fun c => !isSign c)).map (⟨actionOf sign, modifier⟩ :: ·)
termination_by input.length
decreasing_by
  have bound := Descriptor.length_dropWhile_le (fun c => !isSign c) rest
  simp only [List.length_cons]
  omega

/-- Reads an access level and its toggles. -/
def readAccess (word : List Char) : Except LineFault (AccessLevel × List Toggle) :=
  let level := String.ofList (word.takeWhile fun c => !isSign c)
  match AccessLevel.ofKeyword? level with
  | none => .error (.unknownLevel level)
  | some access => (readToggles (word.dropWhile fun c => !isSign c)).map (access, ·)

/-- Whether a character occurs in no field name of a rule. -/
def isForbiddenInField (c : Char) : Bool := c == '<' || c == '>' || c == ')'

/-- Reads the name of a field. -/
def readFieldName (name : UnqualifiedName) : Except LineFault Target :=
  if name.text.toList.any isForbiddenInField then .error (.notAField name.text)
  else .ok (.field (.named name none))

/-- Reads a method from its name and the text of its descriptor. -/
def readMethodName (name : UnqualifiedName) (descriptor : List Char) : Except LineFault Target :=
  if !name.isMethodName then .error (.notAMethod name.text)
  else if name = .staticInitializer then .error .staticInitializer
  else
    match Descriptor.whole Descriptor.readMethod descriptor with
    | .error fault => .error (.badDescriptor (String.ofList descriptor) fault)
    | .ok signature =>
        if name = .constructor ∧ signature.result.isSome then .error .constructorWithResult
        else .ok (.method (.named name (some (String.ofList descriptor))))

/-- Reads a member. The first opening parenthesis ends the name and starts a descriptor. -/
def readMember (word : List Char) : Except LineFault Target :=
  if word = ['*'] then .ok (.field .every)
  else if word = ['*', '(', ')'] then .ok (.method .every)
  else
    let name := word.takeWhile (· != '(')
    if name = ['*'] then .error .misplacedWildcard
    else
      match UnqualifiedName.ofString (String.ofList name) with
      | .error fault => .error (.badName fault)
      | .ok name =>
          match word.dropWhile (· != '(') with
          | [] => readFieldName name
          | descriptor => readMethodName name descriptor

/-- Reads the target of a directive from the words after its owner. -/
def readTarget : List (List Char) → Except LineFault Target
  | [] => .ok .classItself
  | member :: _ => readMember member

/-- Reads a directive from the words of a line. -/
def readWords (words : List (List Char)) : Except LineFault Directive :=
  match words with
  | access :: owner :: members =>
      if 1 < members.length then .error (.wordCount words.length)
      else do
        let (level, toggles) ← readAccess access
        let owner ← (BinaryName.ofQualified (String.ofList owner)).mapError .badName
        let target ← readTarget members
        return { access := level, toggles, owner, target }
  | _ => .error (.wordCount words.length)

end Rule

/-- Reads a rule line that holds no comment. -/
def Directive.parse (line : String) : Except LineError Directive :=
  (Rule.readWords (Text.words line.toList)).mapError (⟨line, ·⟩)

end ClassAccess
