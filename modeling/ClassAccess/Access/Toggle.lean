/-!
# Modifiers and toggles

A modifier is a bit of an access word that rules switch on or off independently
of the access level. A toggle does the switching.
-/

namespace ClassAccess

/-- The modifiers that rules may switch. -/
inductive Modifier where
  | final
deriving DecidableEq, Repr

namespace Modifier

/-- Every modifier. -/
def all : List Modifier := [final]

/-- The short name of a modifier in rules. -/
def code : Modifier → String
  | final => "f"

/-- The bit of a modifier in access words. -/
def bit : Modifier → UInt16
  | final => 0x0010

/-- The modifier with a short name. -/
def ofCode? (code : String) : Option Modifier :=
  all.find? fun modifier => modifier.code == code

/-- The modifier with a bit. -/
def ofBit? (bit : UInt16) : Option Modifier :=
  all.find? fun modifier => modifier.bit == bit

/-- Short names stand for their modifiers. -/
@[simp] theorem ofCode?_code (modifier : Modifier) : ofCode? modifier.code = some modifier := by
  cases modifier
  decide

end Modifier

/-- Whether a toggle sets or clears its bit. -/
inductive ToggleAction where
  | add
  | remove
deriving DecidableEq, Repr

/-- The sign that stands for an action in rules. -/
def ToggleAction.sign : ToggleAction → Char
  | .add => '+'
  | .remove => '-'

/-- Sets or clears the bit of one modifier. -/
structure Toggle where
  action : ToggleAction
  modifier : Modifier
deriving DecidableEq, Repr

namespace Toggle

/-- The toggle that sets a modifier. -/
def add (modifier : Modifier) : Toggle := ⟨.add, modifier⟩

/-- The toggle that clears a modifier. -/
def remove (modifier : Modifier) : Toggle := ⟨.remove, modifier⟩

/-- The access word after a toggle. -/
def apply (toggle : Toggle) (word : UInt16) : UInt16 :=
  match toggle.action with
  | .add => word ||| toggle.modifier.bit
  | .remove => word &&& ~~~toggle.modifier.bit

/-- The text of a toggle in rules. -/
def render (toggle : Toggle) : String :=
  toggle.action.sign.toString ++ toggle.modifier.code

end Toggle

end ClassAccess
