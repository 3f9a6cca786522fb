import Offside.Diagnostic
import Offside.Feature
import Offside.Token

/-!
# Offside.Diagnostic.Scan

Diagnostics from the tokens alone: features that are not supported, and
characters that belong to no token. All of them are found, while the parser
stops at the first fault.

A brace that opens a dictionary is reported as a feature, and the brace that
closes it is then passed over.
-/

namespace Offside.Diagnostic

/-- The diagnostic of a feature. -/
def ofFeature (file : Option String) (line : Nat) (f : Feature) : Diagnostic :=
  ⟨"KCN-UNSUPPORTED-SYNTAX", "Unsupported syntax: " ++ f.message, .error, file, line, "lex"⟩

/-- The diagnostic of a text that belongs to no token and starts with `c`. A
quote there starts a string that does not end. -/
def ofStray (file : Option String) (line : Nat) (c : Char) (text : String) : Diagnostic :=
  let message :=
    if c = '"' ∨ c = '\'' then "Unterminated string literal"
    else "Unrecognized character '" ++ text ++ "'"
  ⟨"KCN-LEX-ERROR", message, .error, file, line, "lex"⟩

/-- What is reported about a token, inside the given number of reported braces,
and the number of those after it. -/
def scanToken (registry : Registry) (file : Option String) (braces : Nat) (t : Token) :
    List Diagnostic × Nat :=
  match t.kind with
  | .keyword | .identifier =>
    (((registry.lookup (.word t.text)).map (ofFeature file t.line)).toList, braces)
  | .error =>
    match t.text.toList with
    | [] => ([], braces)
    | c :: _ =>
      if c = '\x7d' ∧ 0 < braces then ([], braces - 1)
      else
        match registry.lookup (.char c) with
        | some f => ([ofFeature file t.line f], if c = '\x7b' then braces + 1 else braces)
        | none => ([ofStray file t.line c t.text], braces)
  | _ => ([], braces)

/-- What is reported about tokens, inside the given number of reported
braces. -/
def scanFrom (registry : Registry) (file : Option String) (braces : Nat) :
    List Token → List Diagnostic
  | [] => []
  | t :: ts =>
    let (found, inner) := scanToken registry file braces t
    found ++ scanFrom registry file inner ts

/-- What is reported about tokens. -/
def scan (registry : Registry) (file : Option String) (ts : List Token) : List Diagnostic :=
  scanFrom registry file 0 ts

end Offside.Diagnostic
