import ClassAccess.ClassFile.Walk
import ClassAccess.Log
import ClassAccess.Rule.RuleSet

/-!
# Applying rules to classes

A transformation rewrites the access words of a class for which a rule set has a
directive. The header and the entries of nested classes follow the class
directives of their own names; members follow the directives of the class. The
outcome says what changed; the log has an entry for each change and each
warning, in the order of the walk.
-/

namespace ClassAccess

/-- What a transformation did. -/
structure Outcome where
  /-- The name of the class. -/
  owner : String
  /-- The number of access words that changed. -/
  changed : Nat
  /-- The nested classes whose entries have a class directive. -/
  nested : List String
  /-- Directives that were applied although a virtual machine may reject the result. -/
  warnings : List String
deriving DecidableEq, Repr

/-- Whether no access word changed. -/
def Outcome.isUnchanged (outcome : Outcome) : Bool := outcome.changed == 0

/-- The bytes that a transformation made, and what it did. -/
structure Transformed where
  bytes : List UInt8
  outcome : Outcome
deriving DecidableEq, Repr

/-- Why a class is not transformed. -/
structure TransformError where
  fault : ClassFile.Fault
deriving DecidableEq, Repr

/-- The wording of an error. -/
def TransformError.message (error : TransformError) : String :=
  "Invalid class file: " ++ error.fault.message

namespace Transform

/-- What was done so far. Lists are kept in reverse. -/
structure Progress where
  changed : Nat
  nested : List String
  warnings : List String
  log : List Log.Entry
deriving DecidableEq, Repr

/-- Nothing was done yet. -/
def Progress.start : Progress := ⟨0, [], [], []⟩

/-- The rules, and the class that they are applied to. -/
structure Context where
  rules : RuleSet
  owner : String
  ofInterface : Bool

/-- Adds a message to the log. -/
def note (level : Log.Level) (text : String) : StateM Progress Unit :=
  modify fun progress => { progress with log := ⟨level, text⟩ :: progress.log }

/-- Adds a warning to the log and to the outcome. -/
def warn (text : String) : StateM Progress Unit := do
  note .warn text
  modify fun progress => { progress with warnings := text :: progress.warnings }

/-- An access word with its level, as messages show it. -/
def wordText (word : UInt16) : String :=
  Text.hexText 4 word.toNat ++ " (" ++ (AccessLevel.ofWord word).keyword ++ ")"

/-- The message about a changed access word. -/
def changeMessage (owner : String) (directive : Directive) (before after : UInt16) : String :=
  owner ++ ": '" ++ directive.render ++ "' takes " ++ wordText before ++ " to " ++ wordText after

/-- The message about all changes of a class. -/
def totalMessage (owner : String) (changed : Nat) : String :=
  owner ++ ": " ++ toString changed ++ " access flags changed"

/-- The warning about a header that is made protected or private. -/
def headerWarning (directive : Directive) : String :=
  "'" ++ directive.render ++ "': class headers can only be public or package-private, "
    ++ directive.access.keyword
    ++ " is only meaningful on the InnerClasses entry of a nested class"

/-- The warning about a member of an interface that is not made public. -/
def interfaceWarning (owner : String) (directive : Directive) : String :=
  "'" ++ directive.render ++ "' makes a member of interface " ++ owner ++ " "
    ++ directive.access.keyword ++ ", which the JVM will reject"

/-- Applies a directive, if there is one, to an access word and counts a change. -/
def apply (context : Context) (directive : Option Directive) (word : UInt16) :
    StateM Progress UInt16 :=
  match directive with
  | none => pure word
  | some directive => do
      let rewritten := directive.rewrite word
      if rewritten ≠ word then
        note .debug (changeMessage context.owner directive word rewritten)
        modify fun progress => { progress with changed := progress.changed + 1 }
      return rewritten

/-- The class directive of a class. -/
def classDirective (rules : RuleSet) (name : String) : Option Directive :=
  rules.find? name ⟨.classItself, name, none⟩

/-- Whether a level makes sense for nested classes only. -/
def isForNestedOnly (level : AccessLevel) : Bool :=
  level = .protectedAccess || level = .privateAccess

/-- Applies the class directive of the class to its header. -/
def visitHeader (context : Context) (word : UInt16) (name : String) :
    StateM Progress UInt16 := do
  let directive := classDirective context.rules name
  match directive with
  | some directive =>
      if isForNestedOnly directive.access then warn (headerWarning directive)
  | none => pure ()
  apply context directive word

/-- Applies the directive that is found for a member. -/
def visitMember (context : Context) (word : UInt16) (query : Query) : StateM Progress UInt16 := do
  let directive := context.rules.find? context.owner query
  match directive with
  | some directive =>
      if context.ofInterface && directive.access ≠ .publicAccess then
        warn (interfaceWarning context.owner directive)
  | none => pure ()
  apply context directive word

/-- Applies the class directive of a nested class to its entry. -/
def visitNested (context : Context) (word : UInt16) (name : String) :
    StateM Progress UInt16 := do
  let directive := classDirective context.rules name
  if directive.isSome then
    modify fun progress => { progress with nested := name :: progress.nested }
  apply context directive word

/-- The visitor that applies the rules of a context. -/
def visitor (context : Context) : ClassFile.Visitor Progress where
  visitHeader := visitHeader context
  visitField word name _ := visitMember context word ⟨.field, name, none⟩
  visitMethod word name descriptor := visitMember context word ⟨.method, name, some descriptor⟩
  visitNested := visitNested context

/-- Reads a class, and prepares to apply rules to it. -/
def start (rules : RuleSet) (bytes : List UInt8) : Except ClassFile.Fault (ClassFile × Context) := do
  let file ← ClassFile.parse bytes
  let owner ← file.name
  return (file, { rules, owner, ofInterface := file.isInterface })

/-- The outcome of a finished walk. -/
def outcomeOf (context : Context) (progress : Progress) : Outcome where
  owner := context.owner
  changed := progress.changed
  nested := progress.nested.reverse
  warnings := progress.warnings.reverse

/-- The log of a finished walk, with the total if anything changed. -/
def logOf (context : Context) (progress : Progress) : List Log.Entry :=
  progress.log.reverse
    ++ if progress.changed = 0 then []
       else [⟨.debug, totalMessage context.owner progress.changed⟩]

end Transform

/-- Applies rules to the bytes of a class. A class without changes keeps its bytes. -/
def transform (rules : RuleSet) (bytes : List UInt8) :
    Except TransformError Transformed × List Log.Entry :=
  match Transform.start rules bytes with
  | .error fault => (.error ⟨fault⟩, [])
  | .ok (file, context) =>
      match (file.accept (Transform.visitor context)).run .start with
      | (.error fault, progress) => (.error ⟨fault⟩, progress.log.reverse)
      | (.ok visited, progress) =>
          let outcome := Transform.outcomeOf context progress
          let output := if outcome.isUnchanged then bytes else visited.toBytes
          (.ok ⟨output, outcome⟩, Transform.logOf context progress)

end ClassAccess
