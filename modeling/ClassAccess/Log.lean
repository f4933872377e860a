import ClassAccess.Text.Split

/-!
# Log entries

Operations that report on their work return the entries they would show, most
often beside their result. Showing them is left to the program.
-/

namespace ClassAccess.Log

/-- How urgent an entry is. -/
inductive Level where
  | error
  | warn
  | info
  | debug
deriving DecidableEq, Repr, Inhabited

/-- Position of a level, the most urgent first. -/
def Level.rank : Level → Nat
  | .error => 0
  | .warn => 1
  | .info => 2
  | .debug => 3

/-- The word that stands for a level in shown entries. -/
def Level.label : Level → String
  | .error => "ERROR"
  | .warn => "WARN"
  | .info => "INFO"
  | .debug => "DEBUG"

/-- The name of a level in settings. -/
def Level.name : Level → String
  | .error => "error"
  | .warn => "warn"
  | .info => "info"
  | .debug => "debug"

/-- The level with a name. -/
def Level.ofName? (name : String) : Option Level :=
  [Level.error, .warn, .info, .debug].find? fun level => level.name == name

/-- One message with its level. -/
structure Entry where
  level : Level
  text : String
deriving DecidableEq, Repr, Inhabited

/-- Whether an entry is shown under a threshold; without a threshold none is. -/
def Entry.shownAt (threshold : Option Level) (entry : Entry) : Bool :=
  match threshold with
  | none => false
  | some level => entry.level.rank ≤ level.rank

/-- What stands in front of each line of a shown entry but the first. -/
def indentation : String := "    "

/-- The lines in which the text of an entry is shown. -/
def Entry.lines (entry : Entry) : List String :=
  match Text.pieces (· == '\n') entry.text.toList with
  | [] => []
  | first :: later => String.ofList first :: later.map (indentation ++ String.ofList ·)

end ClassAccess.Log
