import Offside.Analysis.Literals
import Offside.Lowering.Stmt

/-!
# Offside.Writer

JavaScript code as text. A writer numbers the flags of all that it writes, so
that no two of them have the same name.
-/

namespace Offside

/-- The state of writing code. -/
structure Writer where
  /-- Spaces for each level of indentation. -/
  width : Nat
  /-- The number of flags so far. -/
  flags : Nat
deriving DecidableEq, Repr

namespace Writer

/-- A writer that has written nothing yet. -/
def new (width : Nat) : Writer := ⟨width, 0⟩

/-- The statements that take the place of a block. -/
def lower (w : Writer) (scope : Scope) (ss : List Stmt) : List Target.Stmt × Writer :=
  let (code, flags) := (Stmt.lowerBlock scope ss).run w.flags
  (code, ⟨w.width, flags⟩)

/-- The text of statements at a depth. -/
def block (w : Writer) (depth : Nat) (scope : Scope) (ss : List Stmt) : String × Writer :=
  let (code, next) := w.lower scope ss
  (Target.renderLines w.width (Target.Stmt.blockLines depth code), next)

/-- The text of a statement at a depth. -/
def statement (w : Writer) (depth : Nat) (scope : Scope) (s : Stmt) : String × Writer :=
  w.block depth scope [s]

/-- The text of a program. -/
def program (w : Writer) (p : Program) : String × Writer := w.block 0 Scope.top p.statements

end Writer

/-- Generated code. -/
structure Output where
  code : String
  /-- The constructs that have become comments. -/
  degradations : List Target.Degradation
deriving DecidableEq, Repr

/-- No construct has become a comment. -/
def Output.isComplete (o : Output) : Bool := o.degradations.isEmpty

/-- The code of a program whose literals pass the checks. -/
def Program.generate (p : Program) (width : Nat) : Except Failure Output := do
  p.checkLiterals
  let w := Writer.new width
  return ⟨(w.program p).1, Target.Stmt.blockDegradations (w.lower Scope.top p.statements).1⟩

end Offside
