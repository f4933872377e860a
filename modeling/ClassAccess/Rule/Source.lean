import ClassAccess.Rule.RuleSet
import ClassAccess.Rule.Syntax
import ClassAccess.Text.Lines

/-!
# Rule files

A rule file has one directive a line. A `#` starts a comment that runs to the end
of its line, and lines with nothing else on them are skipped. Reading stops at
the first line that is not text or not a directive.
-/

namespace ClassAccess

/-- Why the text of a rule file is refused. -/
inductive RuleTextError where
  /-- Some line is not valid UTF-8. -/
  | notText
  /-- Some line, counted from 1, is not a directive. -/
  | atLine (source : String) (number : Nat) (error : LineError)
deriving DecidableEq, Repr

/-- The wording for bytes that are not valid UTF-8. -/
def notTextMessage : String := "stream did not contain valid UTF-8"

/-- The wording of an error in a rule file. -/
def RuleTextError.message : RuleTextError → String
  | notText => "I/O error: " ++ notTextMessage
  | atLine source number error => source ++ ":" ++ toString number ++ ": " ++ error.message

/-- What is wrong with a line, apart from the place of the line. -/
def RuleTextError.lineError? : RuleTextError → Option LineError
  | notText => none
  | atLine _ _ error => some error

namespace RuleSet

/-- A line without its comment and without the blanks at its ends. -/
def cleanLine (line : String) : String :=
  String.ofList (Text.trim (line.toList.takeWhile (· != '#')))

/-- Reads directives, one a line, up to the first line that is not one. -/
def ofLines (lines : List String) : Except LineError RuleSet :=
  ofList <$> lines.mapM Directive.parse

/-- Adds the directive of one numbered line of a rule file, if there is one on it. -/
def addLine (source : String) (rules : RuleSet) (line : List UInt8 × Nat) :
    Except RuleTextError RuleSet :=
  match Text.ofUtf8? line.1 with
  | none => .error .notText
  | some text =>
      let text := cleanLine text
      if text.isEmpty then .ok rules
      else
        match Directive.parse text with
        | .error error => .error (.atLine source line.2 error)
        | .ok directive => .ok (rules.push directive)

/-- Reads the bytes of a rule file. The name of the source only says where errors are. -/
def ofBytes (source : String) (bytes : List UInt8) : Except RuleTextError RuleSet :=
  ((Text.rawLines bytes).zipIdx 1).foldlM (addLine source) empty

end RuleSet

end ClassAccess
