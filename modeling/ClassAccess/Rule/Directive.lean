import ClassAccess.Access.Level
import ClassAccess.Access.Toggle
import ClassAccess.Name

/-!
# Directives

A directive gives an access level, and possibly a few modifiers, to a class or
to members of it. This module says what a directive selects, how it changes an
access word, and how it is written; `Rule.Syntax` reads the written form.
-/

namespace ClassAccess

/-- What an access word belongs to. Constructors are methods. -/
inductive TargetKind where
  | classItself
  | field
  | method
deriving DecidableEq, Repr

/-- A class or member that a directive is sought for. The descriptor is given for methods. -/
structure Query where
  kind : TargetKind
  name : String
  descriptor : Option String
deriving DecidableEq, Repr

/-- Which members of one kind a directive selects. -/
inductive MemberPattern where
  /-- All that the owner declares. -/
  | every
  /-- Those with a name and, for methods, a descriptor. -/
  | named (name : UnqualifiedName) (descriptor : Option String)
deriving DecidableEq, Repr

namespace MemberPattern

/-- Whether a member with some name and descriptor is selected. -/
def selects (pattern : MemberPattern) (name : String) (descriptor : Option String) : Bool :=
  match pattern with
  | every => true
  | named expected expectedDescriptor =>
      expected.text == name && expectedDescriptor == descriptor

end MemberPattern

/-- What a directive applies to within its owner. -/
inductive Target where
  | classItself
  | field (pattern : MemberPattern)
  | method (pattern : MemberPattern)
deriving DecidableEq, Repr

namespace Target

/-- The kind of the things that a target selects. -/
def kind : Target → TargetKind
  | classItself => .classItself
  | field _ => .field
  | method _ => .method

/-- Whether a target selects every member of its kind. -/
def isWildcard : Target → Bool
  | field .every => true
  | method .every => true
  | _ => false

/-- Whether a target selects what is sought. Fields have no descriptor to compare, and static
initializers are never selected. -/
def selects (target : Target) (query : Query) : Bool :=
  match target, query.kind with
  | classItself, .classItself => true
  | field pattern, .field => pattern.selects query.name none
  | method pattern, .method =>
      query.name != UnqualifiedName.staticInitializer.text
        && pattern.selects query.name query.descriptor
  | _, _ => false

/-- The descriptor that is written for a method pattern without one. -/
def defaultDescriptor : String := "()V"

/-- The written form of a target, with the blank in front of it. -/
def render : Target → List Char
  | classItself => []
  | field .every => [' ', '*']
  | method .every => [' ', '*', '(', ')']
  | field (.named name _) => ' ' :: name.text.toList
  | method (.named name descriptor) =>
      ' ' :: name.text.toList ++ (descriptor.getD defaultDescriptor).toList

end Target

/-- How precisely a directive picks its target, the least precise first. -/
inductive Precision where
  | wildcard
  | exactly
deriving DecidableEq, Repr

/-- Position of a precision, the least precise first. -/
def Precision.rank : Precision → Nat
  | .wildcard => 0
  | .exactly => 1

/-- One rule. Toggles take effect in order, after the access level. -/
structure Directive where
  access : AccessLevel
  toggles : List Toggle
  owner : BinaryName
  target : Target
deriving DecidableEq, Repr

namespace Directive

/-- The kind of the things that a directive selects. -/
def kind (directive : Directive) : TargetKind := directive.target.kind

/-- Whether a directive selects what is sought in its owner. -/
def selects (directive : Directive) (query : Query) : Bool := directive.target.selects query

/-- How precisely a directive picks its target. -/
def precision (directive : Directive) : Precision :=
  if directive.target.isWildcard then .wildcard else .exactly

/-- The access word that a directive makes of one. Bits other than the access level and the
toggled modifiers stay as they are. -/
def rewrite (directive : Directive) (word : UInt16) : UInt16 :=
  directive.toggles.foldl (fun word toggle => toggle.apply word) (directive.access.replaceIn word)

/-- The characters of the written form. -/
def renderChars (directive : Directive) : List Char :=
  directive.access.keyword.toList
    ++ directive.toggles.flatMap (fun toggle => toggle.render.toList)
    ++ ' ' :: directive.owner.text.toList
    ++ directive.target.render

/-- The written form of a directive. -/
def render (directive : Directive) : String := String.ofList directive.renderChars

end Directive

end ClassAccess
