import ClassAccess.Files.Host
import ClassAccess.Rule.Source

/-!
# Loading rule files

Several rule files make one rule set, the later files coming after the earlier
ones. Loading stops at the first file that cannot be read or holds an error.
-/

namespace ClassAccess

/-- Why rule files are not loaded. -/
inductive LoadError where
  | file (fault : FileFault)
  | text (error : RuleTextError)
deriving DecidableEq, Repr

/-- The wording of an error while loading. -/
def LoadError.message : LoadError → String
  | file fault => "I/O error: " ++ fault.message
  | text error => error.message

namespace RuleSet

variable {m : Type → Type} [Monad m] [Host m]

/-- The message about a loaded file. -/
def loadedMessage (rules : RuleSet) (path : Path) : String :=
  "Loaded " ++ toString rules.size ++ " directives from " ++ path.text

/-- Loads a rule file. -/
def loadFile (path : Path) : ExceptT LoadError m RuleSet := do
  match ← ExceptT.lift (Host.readFile path) with
  | .error fault => throw (.file fault)
  | .ok bytes =>
      match ofBytes path.text bytes with
      | .error error => throw (.text error)
      | .ok rules => do
          ExceptT.lift (Host.report ⟨.debug, loadedMessage rules path⟩)
          return rules

/-- Loads rule files one after the other. -/
def loadFiles (paths : List Path) : ExceptT LoadError m RuleSet :=
  paths.foldlM (fun rules path => do return rules.merge (← loadFile path)) empty

end RuleSet

end ClassAccess
