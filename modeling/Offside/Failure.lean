import Offside.Token

/-!
# Offside.Failure

The ways in which turning a program into JavaScript can fail. A failure is a
cause, with the line where it was found; its wording is in `message`. Each kind
of cause has a case `stated` for a cause that is known by its wording only.
-/

namespace Offside

/-- Why tokens do not form a program. -/
inductive ParseFault where
  /-- Another token, of this kind and perhaps this text, has to stand here. -/
  | expected (kind : TokenKind) (text : Option String) (found : Token)
  /-- No expression starts with this token. -/
  | unexpected (found : Token)
  /-- A simple statement is followed by this token on its line. -/
  | unfinished (found : Token)
  /-- The left side of an assignment is no name, attribute or element. -/
  | invalidTarget
  /-- The text of a number token stands for no number. -/
  | invalidNumber (text : String)
  | stated (message : String)
deriving DecidableEq, Repr

/-- Why the text of an f-string cannot be read. -/
inductive FStringFault where
  /-- A placeholder does not end. -/
  | unclosed
  /-- A placeholder ends that has not begun. -/
  | unmatched
  /-- The expression in a placeholder is followed by something else. -/
  | trailing (source : String)
  | stated (message : String)
deriving DecidableEq, Repr

/-- Why an operation on literals has no meaning. -/
inductive TypeFault where
  /-- A string literal and a number literal are added. -/
  | mixedAddition
  | stated (message : String)
deriving DecidableEq, Repr

/-- Why a file cannot be read or written. -/
inductive FileFault where
  | notFound
  | isDirectory
  /-- A path goes through a file as if it were a directory. -/
  | notDirectory
  /-- A path, or a name in it, is longer than any that exists. -/
  | nameTooLong
  /-- The content of the file is no text. -/
  | invalidText
  | stated (message : String)
deriving DecidableEq, Repr

/-- Why a program cannot be turned into JavaScript. -/
inductive Failure where
  | parse (line : Nat) (fault : ParseFault)
  | fstring (line : Nat) (fault : FStringFault)
  | divisionByZero (line : Nat)
  | typeMismatch (line : Nat) (fault : TypeFault)
  | file (fault : FileFault)
deriving DecidableEq, Repr

/-- The wording of a parse fault. -/
def ParseFault.message : ParseFault → String
  | expected kind none found => "Expected " ++ kind.name ++ ", but got " ++ found.describe
  | expected kind (some text) found =>
    "Expected " ++ kind.name ++ " '" ++ text ++ "', but got " ++ found.describe
  | unexpected found => "Unexpected token: " ++ found.describe
  | unfinished found => "Expected NEWLINE, but got " ++ found.describe
  | invalidTarget => "Invalid assignment target"
  | invalidNumber text => "Invalid number literal: " ++ text
  | stated message => message

/-- The wording of an f-string fault. -/
def FStringFault.message : FStringFault → String
  | unclosed => "Unclosed \x7b in f-string"
  | unmatched => "Unmatched \x7d in f-string"
  | trailing source => "Unexpected trailing input in f-string expression: " ++ source
  | stated message => message

/-- The wording of a type fault. -/
def TypeFault.message : TypeFault → String
  | mixedAddition => "Addition of string and number detected"
  | stated message => message

/-- The wording of a file fault. -/
def FileFault.message : FileFault → String
  | notFound => "No such file or directory (os error 2)"
  | isDirectory => "Is a directory (os error 21)"
  | notDirectory => "Not a directory (os error 20)"
  | nameTooLong => "File name too long (os error 36)"
  | invalidText => "stream did not contain valid UTF-8"
  | stated message => message

namespace Failure

/-- The line where a failure was found. Failures of files have none. -/
def line? : Failure → Option Nat
  | parse line _ | fstring line _ | divisionByZero line | typeMismatch line _ => some line
  | file _ => none

/-- The wording of a failure. -/
def message : Failure → String
  | parse line fault => "Parse error at line " ++ toString line ++ ": " ++ fault.message
  | fstring line fault => "f-string error at line " ++ toString line ++ ": " ++ fault.message
  | divisionByZero line => "Division by zero detected at line " ++ toString line
  | typeMismatch line fault => "Type error at line " ++ toString line ++ ": " ++ fault.message
  | file fault => "IO error: " ++ fault.message

end Failure

end Offside
