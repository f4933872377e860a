import ClassAccess.Files.Path

/-!
# Command-line arguments

A command names rule files, an input, possibly an output directory, and whether
to write at all. Options may stand before and after the input, in a long form
with a value behind `=` or in the next argument, or in a short form with the
value attached or in the next argument. After `--` everything is input.
Arguments are read from left to right, and a question for the version or for
help is answered as soon as it is read.
-/

namespace ClassAccess.Command

/-- What a run is asked to do. -/
structure Options where
  rules : List Path
  output : Option Path
  dryRun : Bool
  input : Path
deriving DecidableEq, Repr

/-- What a command asks for. -/
inductive Request where
  | run (options : Options)
  | version
  | help
deriving DecidableEq, Repr

/-- Why arguments are not a command. -/
inductive UsageError where
  | unknownOption (argument : String)
  | missingValue (option : String)
  | emptyValue (option : String)
  | needlessValue (option : String)
  | repeated (option : String)
  | secondInput (argument : String)
  | missingRules
  | missingInput
deriving DecidableEq, Repr

/-- The wording of an error. -/
def UsageError.message : UsageError → String
  | unknownOption argument => "unexpected argument '" ++ argument ++ "'"
  | missingValue option => "a value is required for '" ++ option ++ "'"
  | emptyValue option => "the value of '" ++ option ++ "' is empty"
  | needlessValue option => "'" ++ option ++ "' takes no value"
  | repeated option => "'" ++ option ++ "' is given more than once"
  | secondInput argument => "unexpected argument '" ++ argument ++ "'"
  | missingRules => "no rule file is given"
  | missingInput => "no input is given"

/-- The options that take a value. -/
inductive ValueOption where
  | rules
  | output
deriving DecidableEq, Repr

/-- The long form of an option. -/
def ValueOption.long : ValueOption → String
  | rules => "--rules"
  | output => "--output"

/-- What is known of a command after some of its arguments. Rule files are kept in reverse. -/
structure Draft where
  rules : List Path
  output : Option Path
  dryRun : Bool
  input : Option Path
deriving DecidableEq, Repr

namespace Draft

/-- Nothing is known yet. -/
def empty : Draft := ⟨[], none, false, none⟩

/-- Gives an option its value. Only rule files may be given more than once. -/
def give (draft : Draft) (option : ValueOption) (value : String) : Except UsageError Draft :=
  if value.isEmpty then .error (.emptyValue option.long)
  else
    match option with
    | .rules => .ok { draft with rules := ⟨value⟩ :: draft.rules }
    | .output =>
        if draft.output.isSome then .error (.repeated option.long)
        else .ok { draft with output := some ⟨value⟩ }

/-- Takes an argument as the input. -/
def giveInput (draft : Draft) (argument : String) : Except UsageError Draft :=
  if draft.input.isSome then .error (.secondInput argument)
  else if argument.isEmpty then .error (.emptyValue "INPUT")
  else .ok { draft with input := some ⟨argument⟩ }

/-- The switch that keeps files as they are. -/
def dryRunSwitch : String := "--dry-run"

/-- Asks for a run that writes nothing. -/
def giveDryRun (draft : Draft) : Except UsageError Draft :=
  if draft.dryRun then .error (.repeated dryRunSwitch) else .ok { draft with dryRun := true }

/-- The request of a command whose arguments are all read. -/
def finish (draft : Draft) : Except UsageError Request :=
  match draft.rules.reverse, draft.input with
  | [], _ => .error .missingRules
  | _, none => .error .missingInput
  | rules, some input => .ok (.run { draft with rules, input })

end Draft

/-- What an argument says on its own. -/
inductive Argument where
  | plain (text : String)
  | endOfOptions
  | valueOption (option : ValueOption) (attached : Option String)
  | dryRun
  | version
  | help
  | wrong (error : UsageError)
deriving DecidableEq, Repr

/-- The value that is attached to a short option. A `=` in front of it is left out. -/
def attachedShort (rest : List Char) : Option String :=
  match rest with
  | [] => none
  | '=' :: value => some (String.ofList value)
  | value => some (String.ofList value)

/-- The value that is attached to a long option, with the name in front of it. -/
def splitLong (body : List Char) : List Char × Option String :=
  match body.dropWhile (· != '=') with
  | [] => (body, none)
  | _ :: value => (body.takeWhile (· != '='), some (String.ofList value))

/-- Reads a long option, given without its two dashes. -/
def Argument.ofLong (argument : String) (body : List Char) : Argument :=
  let (name, value) := splitLong body
  match String.ofList name, value with
  | "rules", value => .valueOption .rules value
  | "output", value => .valueOption .output value
  | "dry-run", none => .dryRun
  | "version", none => .version
  | "help", none => .help
  | "dry-run", some _ => .wrong (.needlessValue argument)
  | "version", some _ => .wrong (.needlessValue argument)
  | "help", some _ => .wrong (.needlessValue argument)
  | _, _ => .wrong (.unknownOption argument)

/-- Reads an argument on its own. A single dash is an ordinary text. -/
def Argument.ofString (argument : String) : Argument :=
  match argument.toList with
  | ['-', '-'] => .endOfOptions
  | '-' :: '-' :: body => .ofLong argument body
  | '-' :: 'r' :: rest => .valueOption .rules (attachedShort rest)
  | '-' :: 'o' :: rest => .valueOption .output (attachedShort rest)
  | '-' :: 'V' :: _ => .version
  | '-' :: 'h' :: _ => .help
  | '-' :: _ :: _ => .wrong (.unknownOption argument)
  | _ => .plain argument

/-- Reads the arguments after `--`. -/
def readInputs (draft : Draft) (arguments : List String) : Except UsageError Request := do
  (← arguments.foldlM Draft.giveInput draft).finish

/-- Reads arguments into a draft. -/
def readArguments (draft : Draft) : List String → Except UsageError Request
  | [] => draft.finish
  | argument :: rest =>
      match Argument.ofString argument with
      | .plain text => do readArguments (← draft.giveInput text) rest
      | .endOfOptions => readInputs draft rest
      | .valueOption option (some value) => do readArguments (← draft.give option value) rest
      | .valueOption option none =>
          match rest with
          | [] => .error (.missingValue option.long)
          | value :: rest =>
              match Argument.ofString value with
              | .plain text => do readArguments (← draft.give option text) rest
              | _ => .error (.missingValue option.long)
      | .dryRun => do readArguments (← draft.giveDryRun) rest
      | .version => .ok .version
      | .help => .ok .help
      | .wrong error => .error error

/-- Reads the arguments of a command. -/
def Request.ofArguments (arguments : List String) : Except UsageError Request :=
  readArguments .empty arguments

end ClassAccess.Command
