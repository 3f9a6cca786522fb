import Offside.Failure
import Offside.Json
import Offside.Target.Stmt

/-!
# Offside.Diagnostic

Diagnostics: what is reported about a program, as text and as data.
-/

namespace Offside

/-- How serious a diagnostic is. -/
inductive Severity where
  | error
  | warning
deriving DecidableEq, Repr

/-- The name of a severity in data. -/
def Severity.dataName : Severity → String
  | error => "error"
  | warning => "warning"

/-- A remark on a line of a program. -/
structure Diagnostic where
  code : String
  message : String
  severity : Severity
  /-- The file of the program, if it comes from one. -/
  file : Option String
  line : Nat
  /-- The stage that made the remark. -/
  phase : String
deriving DecidableEq, Repr

namespace Diagnostic

/-! ### From failures and degradations -/

/-- The code of a failure. -/
def codeOf : Failure → String
  | .parse .. => "KCN-PARSE-ERROR"
  | .fstring .. => "KCN-FSTRING-ERROR"
  | .divisionByZero _ => "KCN-DIVISION-BY-ZERO"
  | .typeMismatch .. => "KCN-TYPE-MISMATCH"
  | .file _ => "KCN-IO-ERROR"

/-- The message of a failure, without its line. -/
def messageOf : Failure → String
  | .parse _ fault => fault.message
  | .fstring _ fault => fault.message
  | .divisionByZero _ => "Division by zero"
  | .typeMismatch _ fault => fault.message
  | .file fault => (Failure.file fault).message

/-- The stage in which a failure arises. -/
def phaseOf : Failure → String
  | .parse .. | .fstring .. => "parse"
  | .divisionByZero _ | .typeMismatch .. => "semantic"
  | .file _ => "io"

/-- The diagnostic of a failure. One without a line is put on the first. -/
def ofFailure (file : Option String) (e : Failure) : Diagnostic :=
  ⟨codeOf e, messageOf e, .error, file, e.line?.getD 1, phaseOf e⟩

/-- The diagnostic of a construct that has become a comment. It has no line and
is put on the first. -/
def ofDegradation (file : Option String) (d : Target.Degradation) : Diagnostic :=
  ⟨"KCN-UNSUPPORTED-SYNTAX", d.node ++ " left untranslated: " ++ d.detail, .warning, file, 1,
    "emit"⟩

/-! ### Text and data -/

/-- The line of text of a diagnostic. -/
def toText (d : Diagnostic) : String :=
  "[" ++ d.code ++ "] " ++ d.file.getD "<input>" ++ ":" ++ toString d.line ++ " " ++ d.message ++
    "\n"

/-- A diagnostic as data. -/
def toJson (d : Diagnostic) : Json :=
  .object
    [("code", .string d.code), ("message", .string d.message),
      ("severity", .string d.severity.dataName),
      ("span", .object ((d.file.map fun f => ("file", .string f)).toList ++
        [("line", .natural d.line)])),
      ("phase", .string d.phase)]

/-- The text of diagnostics, one line for each. -/
def allToText (ds : List Diagnostic) : String := String.join (ds.map toText)

/-- Diagnostics as data. -/
def allToJson (ds : List Diagnostic) : Json := .object [("diagnostics", .array (ds.map toJson))]

/-- There is an error among the diagnostics. -/
def hasErrors (ds : List Diagnostic) : Bool := ds.any (·.severity = .error)

end Diagnostic

end Offside
