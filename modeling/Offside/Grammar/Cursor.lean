import Offside.Grammar.FString
import Offside.Grammar.Statement

/-!
# Offside.Grammar.Cursor

Reading piece by piece. A cursor is a place in a list of tokens; each operation
reads one piece and returns the cursor after it, also when it fails, so that
reading can go on from there.
-/

namespace Offside

namespace Grammar

/-- A place in a list of tokens. -/
structure Cursor where
  /-- The tokens that are still to be read. -/
  rest : List Token
  /-- The line that is reported for the end of the tokens. -/
  endLine : Nat
deriving DecidableEq, Repr

namespace Cursor

/-- The cursor at the start of the tokens. -/
def ofTokens (ts : List Token) : Cursor := ⟨ts, Grammar.endLine ts⟩

/-- No token is left. -/
def isAtEnd (c : Cursor) : Bool := c.rest.isEmpty

/-- The grammar at this place. -/
def context (c : Cursor) : Context :=
  ⟨c.endLine, fun text line => FString.read text.toList line⟩

/-- The outcome of a step from here, with the cursor where it stopped. -/
def take {k : Nat} {α : Type} (c : Cursor) (s : Step k c.rest α) : Except Failure α × Cursor :=
  (s.result, ⟨s.rest, c.endLine⟩)

/-- Read a statement. A line end alone is none. -/
def statement (c : Cursor) : Except Failure (Option Stmt) × Cursor :=
  c.take (Grammar.statement c.context c.rest)

/-- Read an expression whose operators all have at least the binding power
`minPower`. -/
def expression (c : Cursor) (minPower : Nat) : Except Failure Expr × Cursor :=
  c.take (Grammar.expression c.context minPower c.rest)

/-- Read all statements up to the end of the tokens. -/
def program (c : Cursor) : Except Failure Program × Cursor :=
  c.take ((Grammar.program c.context c.rest).map Program.mk)

end Cursor

end Grammar

namespace Program

/-- The program that tokens form. -/
def ofTokens (ts : List Token) : Except Failure Program := (Grammar.Cursor.ofTokens ts).program.1

/-- The program that a source text stands for. -/
def parse (source : String) : Except Failure Program := ofTokens (Token.ofProgram source.toList)

end Program

end Offside
