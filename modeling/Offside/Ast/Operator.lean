/-!
# Offside.Ast.Operator

The operators of the source language, with their symbols and their binding
power.
-/

namespace Offside

/-- Binary operators. -/
inductive BinaryOp where
  | add
  | sub
  | mul
  | div
  | floorDiv
  | mod
  | pow
  | eq
  | notEq
  | lt
  | gt
  | ltEq
  | gtEq
  | and
  | or
deriving DecidableEq, Repr

namespace BinaryOp

/-- All operators, in declaration order. -/
def all : List BinaryOp :=
  [add, sub, mul, div, floorDiv, mod, pow, eq, notEq, lt, gt, ltEq, gtEq, and, or]

/-- The source text of an operator. -/
def symbol : BinaryOp → String
  | add => "+"
  | sub => "-"
  | mul => "*"
  | div => "/"
  | floorDiv => "//"
  | mod => "%"
  | pow => "**"
  | eq => "=="
  | notEq => "!="
  | lt => "<"
  | gt => ">"
  | ltEq => "<="
  | gtEq => ">="
  | and => "and"
  | or => "or"

/-- The operator with the given source text. -/
def ofSymbol? (s : String) : Option BinaryOp := all.find? (·.symbol = s)

/-- The binding power of an operator. The operator of the greater power takes
the operand between two operators. -/
def precedence : BinaryOp → Nat
  | pow => 10
  | mul | div | floorDiv | mod => 9
  | add | sub => 8
  | eq | notEq | lt | gt | ltEq | gtEq => 7
  | and => 6
  | or => 5

/-- The name of an operator in a dumped syntax tree. -/
def dataName : BinaryOp → String
  | add => "Add"
  | sub => "Sub"
  | mul => "Mul"
  | div => "Div"
  | floorDiv => "FloorDiv"
  | mod => "Mod"
  | pow => "Pow"
  | eq => "Eq"
  | notEq => "NotEq"
  | lt => "Lt"
  | gt => "Gt"
  | ltEq => "LtEq"
  | gtEq => "GtEq"
  | and => "And"
  | or => "Or"

theorem ofSymbol?_symbol (op : BinaryOp) : ofSymbol? op.symbol = some op := by
  cases op <;> decide

end BinaryOp

/-- Unary operators. -/
inductive UnaryOp where
  | neg
  | pos
  | not
deriving DecidableEq, Repr

/-- The name of an operator in a dumped syntax tree. -/
def UnaryOp.dataName : UnaryOp → String
  | neg => "Neg"
  | pos => "Pos"
  | not => "Not"

/-- The operators of augmented assignments. -/
inductive AugmentedOp where
  | add
  | sub
  | mul
  | div
  | floorDiv
  | mod
  | pow
deriving DecidableEq, Repr

namespace AugmentedOp

/-- All operators, in declaration order. -/
def all : List AugmentedOp := [add, sub, mul, div, floorDiv, mod, pow]

/-- The source text of an augmented assignment. -/
def symbol : AugmentedOp → String
  | add => "+="
  | sub => "-="
  | mul => "*="
  | div => "/="
  | floorDiv => "//="
  | mod => "%="
  | pow => "**="

/-- The operator of the augmented assignment with the given source text. -/
def ofSymbol? (s : String) : Option AugmentedOp := all.find? (·.symbol = s)

/-- The name of an operator in a dumped syntax tree. -/
def dataName : AugmentedOp → String
  | add => "Add"
  | sub => "Sub"
  | mul => "Mul"
  | div => "Div"
  | floorDiv => "FloorDiv"
  | mod => "Mod"
  | pow => "Pow"

theorem ofSymbol?_symbol (op : AugmentedOp) : ofSymbol? op.symbol = some op := by
  cases op <;> decide

end AugmentedOp

end Offside
