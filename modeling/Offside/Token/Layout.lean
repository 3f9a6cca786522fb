import Offside.Token
import Offside.Token.Lexeme

/-!
# Offside.Token.Layout

From lexemes to tokens. A program and an expression are read from the same
lexemes:

* in an expression (`Token.ofExpression`) the line structure means nothing, and
  line ends only count lines;
* in a program (`Token.ofProgram`) a line end is a token, and the column at
  which the next line starts opens or closes blocks.

A line of blanks, a comment line, and a line that a carriage return follows
before any text leave the blocks as they are. The line on which the source
starts has no column.
-/

namespace Offside

/-- The token that a lexeme of its own becomes. Comments and blanks become
none, and line ends are the business of the layout. -/
def Lexeme.token? (line : Nat) : Lexeme → Option Token
  | .comment _ | .blanks _ | .newline => none
  | .quoted [] _ body => some ⟨.string, String.ofList body, line⟩
  | .quoted (_ :: _) _ body => some ⟨.fstring, String.ofList body, line⟩
  | .word letters =>
    some ⟨if letters ∈ keywords then .keyword else .identifier, String.ofList letters, line⟩
  | .number digits => some ⟨.number, String.ofList digits, line⟩
  | .operator symbol => some ⟨.operator, String.ofList symbol, line⟩
  | .delimiter symbol => some ⟨.delimiter, symbol.toString, line⟩
  | .dot => some ⟨.dot, ".", line⟩
  | .stray char => some ⟨.error, char.toString, line⟩

namespace Token

/-! ### Expressions -/

/-- The tokens of an expression's lexemes, the first of which stands on
`line`. -/
def flatten (line : Nat) : List Lexeme → List Token
  | [] => []
  | .newline :: ls => flatten (line + 1) ls
  | l :: ls => (l.token? line).toList ++ flatten line ls

/-- The tokens of an expression that starts on `line`. -/
def ofExpression (source : List Char) (line : Nat) : List Token :=
  flatten line (Lexeme.scan source)

/-! ### Programs -/

/-- The token that opens a block at `column`. -/
def indent (line column : Nat) : Token := ⟨.indent, toString column, line⟩

/-- The token that closes the block at `column`. -/
def dedent (line column : Nat) : Token := ⟨.dedent, toString column, line⟩

/-- The token of a line end. -/
def newline (line : Nat) : Token := ⟨.newline, "\n", line⟩

/-- A line has nothing to lay out from here on. -/
def restIsBare : List Lexeme → Bool
  | [] | .newline :: _ | .comment _ :: _ => true
  | _ => false

/-- The column at which a line starts, if it takes part in the layout. -/
def column? : List Lexeme → Option Nat
  | .blanks run :: ls => if '\r' ∈ run ∨ restIsBare ls then none else some run.length
  | ls => if restIsBare ls then none else some 0

/-- What a line that starts at `column` does to the open blocks, which are
given by their columns, innermost first: deeper than all of them it opens one,
and otherwise it closes those that are deeper. -/
def shift (line column : Nat) (blocks : List Nat) : List Token × List Nat :=
  if blocks.headD 0 < column then ([indent line column], column :: blocks)
  else ((blocks.takeWhile (column < ·)).map (dedent line), blocks.dropWhile (column < ·))

/-- What the line with these lexemes does to the open blocks. -/
def shiftAt (line : Nat) (ls : List Lexeme) (blocks : List Nat) : List Token × List Nat :=
  match column? ls with
  | some column => shift line column blocks
  | none => ([], blocks)

/-- The tokens of a program's lexemes inside the given blocks. The blocks that
are open at the end are closed there. -/
def layout (line : Nat) (blocks : List Nat) : List Lexeme → List Token
  | [] => blocks.map (dedent line)
  | .newline :: ls =>
    let (shifts, inner) := shiftAt (line + 1) ls blocks
    newline line :: (shifts ++ layout (line + 1) inner ls)
  | l :: ls => (l.token? line).toList ++ layout line blocks ls

/-- The tokens of a program. -/
def ofProgram (source : List Char) : List Token := layout 1 [] (Lexeme.scan source)

end Token

end Offside
