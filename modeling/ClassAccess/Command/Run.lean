import ClassAccess.Command.Arguments
import ClassAccess.Files.Save
import ClassAccess.Rule.Load
import ClassAccess.Transform

/-!
# Running a command

A run loads the rules, collects the classes of the input, and then transforms
and writes them one after the other. It stops at the first fault, so that the
classes before it are written and those after it are not. At the end it names
the owners of the rule set for which no class was found.
-/

namespace ClassAccess.Command

/-- Why a run fails. -/
inductive RunError where
  | rules (error : LoadError)
  | walk (fault : WalkFault)
  | file (fault : FileFault)
  | badClass (path : Path) (error : TransformError)
deriving DecidableEq, Repr

/-- The wording of an error. -/
def RunError.message : RunError → String
  | rules error => "Rules - " ++ error.message
  | walk fault => "Walking input - " ++ fault.message
  | file fault => "IO - " ++ fault.message
  | badClass path error => path.text ++ " - " ++ error.message

/-- A class to transform, and where the result goes. -/
structure Job where
  source : Path
  target : Path
deriving DecidableEq, Repr

/-- Whether a job writes over its own source. -/
def Job.inPlace (job : Job) : Bool := job.target.same job.source

/-- The extension of class files. -/
def classExtension : String := "class"

/-- Whether a file name is that of a class file. -/
def isClassName (name : String) : Bool := Path.extension? name == some classExtension

/-- The job of an input that is a file. -/
def fileJob (options : Options) : Job where
  source := options.input
  target :=
    match options.output, options.input.fileName? with
    | some output, some name => output.join name
    | _, _ => options.input

/-- The job of a file below an input that is a directory. -/
def walkedJob (options : Options) (names : List String) : Job where
  source := options.input.joinAll names
  target := (options.output.getD options.input).joinAll names

/-- Whether the names on the way to a file end in that of a class file. -/
def leadsToClass (names : List String) : Bool := names.getLast?.any isClassName

/-- What was seen and done so far. -/
structure Tally where
  seenOwners : List String
  changedClasses : Nat
deriving DecidableEq, Repr

/-- A tally after one more class. -/
def Tally.add (tally : Tally) (outcome : Outcome) : Tally where
  seenOwners := outcome.owner :: outcome.nested ++ tally.seenOwners
  changedClasses := tally.changedClasses + if outcome.isUnchanged then 0 else 1

/-- The line about a transformed class. -/
def resultLine (job : Job) (outcome : Outcome) : String :=
  let summary :=
    if outcome.isUnchanged then "unchanged" else toString outcome.changed ++ " changed"
  " - " ++ job.source.text ++ " [" ++ summary ++ "]\n"

/-- The owners of directives for which no class was seen, in ascending order. -/
def unusedOwners (rules : RuleSet) (tally : Tally) : List String :=
  rules.owners.filter fun owner => !tally.seenOwners.contains owner

variable {m : Type → Type} [Monad m] [Host m]

/-- A step of a run. -/
abbrev RunM (m : Type → Type) := ExceptT RunError m

/-- Carries out a file operation, whose fault ends the run. -/
def attempt {ε α : Type} (error : ε → RunError) (operation : m (Except ε α)) :
    RunM m α := ExceptT.mk do return (← operation).mapError error

/-- Adds a message to the log. -/
def inform (level : Log.Level) (text : String) : RunM m Unit :=
  ExceptT.lift (Host.report ⟨level, text⟩)

/-- Loads the rules. -/
def loadRules (options : Options) : RunM m RuleSet := do
  let rules ← ExceptT.mk do return (← (RuleSet.loadFiles options.rules).run).mapError .rules
  inform .info ("Loaded " ++ toString rules.size ++ " directives for "
    ++ toString rules.owners.length ++ " classes from "
    ++ toString options.rules.length ++ " files")
  return rules

/-- The jobs of a run, in the order in which they are done. What has the name of a class file but is
none is passed over. -/
def collectJobs (options : Options) : RunM m (List Job) := do
  if ← ExceptT.lift (Host.isFile options.input) then return [fileJob options]
  let found ← attempt .walk (Host.walk options.input)
  let jobs := (found.filter leadsToClass).map (walkedJob options)
  jobs.filterM fun job => ExceptT.lift (Host.isFile job.source)

/-- Writes the result of a job, unless it is a dry run or would write what is there. -/
def writeResult (options : Options) (job : Job) (result : Transformed) : RunM m Unit := do
  if options.dryRun then
    inform .info ("Not writing '" ++ job.target.text ++ "' (dry run)")
  else if !result.outcome.isUnchanged || !job.inPlace then
    inform .info ("Writing '" ++ job.target.text ++ "'")
    attempt .file (Host.saveFile job.target result.bytes)

/-- Does one job. -/
def runJob (options : Options) (rules : RuleSet) (tally : Tally) (job : Job) : RunM m Tally := do
  let bytes ← attempt .file (Host.readFile job.source)
  let (result, log) := transform rules bytes
  for entry in log do
    ExceptT.lift (Host.report entry)
  match result with
  | .error error => throw (.badClass job.source error)
  | .ok result =>
      writeResult options job result
      ExceptT.lift (Host.print (resultLine job result.outcome))
      return tally.add result.outcome

/-- Carries out a command. -/
def run (options : Options) : RunM m Unit := do
  let rules ← loadRules options
  let jobs ← collectJobs options
  let tally ← jobs.foldlM (runJob options rules) ⟨[], 0⟩
  for owner in unusedOwners rules tally do
    inform .warn ("No class found for directives on '" ++ owner ++ "'")
  inform .info ("Changed " ++ toString tally.changedClasses ++ " of "
    ++ toString jobs.length ++ " classes")

/-- What is printed when the version is asked for. -/
def versionText : String := "Access transformer 0.1.0\n"

/-- What is printed when help is asked for. -/
def helpText : String :=
  String.intercalate "\n"
    ["Change the visibility of classes, fields, and methods in JVM class files",
     "",
     "Usage: access-transformer [OPTIONS] --rules <FILE> <INPUT>",
     "",
     "Arguments:",
     "  <INPUT>  Class file or directory of class files",
     "",
     "Options:",
     "  -r, --rules <FILE>        Access transformer rule file (may be repeated, later files win)",
     "  -o, --output <DIRECTORY>  Write classes here instead of rewriting them in place",
     "      --dry-run             Report what would change without writing anything",
     "  -h, --help                Print help",
     "  -V, --version             Print version",
     ""]

/-- How a command ends. -/
structure Ending where
  exitCode : UInt32
  /-- The lines for the error stream. -/
  complaints : List String
deriving DecidableEq, Repr

/-- Carries out the command that some arguments give. -/
def execute (arguments : List String) : m Ending := do
  match Request.ofArguments arguments with
  | .error error => return ⟨2, ["error: " ++ error.message]⟩
  | .ok .version =>
      Host.print versionText
      return ⟨0, []⟩
  | .ok .help =>
      Host.print helpText
      return ⟨0, []⟩
  | .ok (.run options) =>
      match ← (run options).run with
      | .ok () => return ⟨0, []⟩
      | .error error => return ⟨1, ["Error: " ++ error.message]⟩

end ClassAccess.Command
