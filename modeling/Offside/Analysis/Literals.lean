import Offside.Ast
import Offside.Failure

/-!
# Offside.Analysis.Literals

Operations on literals that have no meaning: a division by the literal zero,
and the sum of a string literal and a number literal. They are looked for in
the order of the source, an operation before its operands.
-/

namespace Offside

namespace Expr

/-- The literal zero, of either sign. -/
def isZeroLiteral : Expr → Bool
  | literal (.number value) => value.isZero
  | _ => false

/-- One side is a string literal and the other a number literal. -/
def areStringAndNumber (left right : Expr) : Bool :=
  match left.literalKind?, right.literalKind? with
  | some .string, some .number | some .number, some .string => true
  | _, _ => false

/-- The fault of a binary operation on `line`, apart from those of its
operands. -/
def fault? (left : Expr) (op : BinaryOp) (right : Expr) (line : Nat) : Option Failure :=
  match op with
  | .div | .floorDiv => if right.isZeroLiteral then some (.divisionByZero line) else none
  | .add =>
    if areStringAndNumber left right then some (.typeMismatch line .mixedAddition) else none
  | _ => none

mutual

/-- Look for faults in an expression. -/
def checkLiterals : Expr → Except Failure Unit
  | ident _ | literal _ => .ok ()
  | binary left op right line => do
    if let some failure := fault? left op right line then .error failure
    checkLiterals left
    checkLiterals right
  | unary _ operand => checkLiterals operand
  | attr value _ => checkLiterals value
  | call callee args => do
    checkLiterals callee
    checkAllLiterals args
  | index target position => do
    checkLiterals target
    checkLiterals position
  | list items => checkAllLiterals items
  | fstring _ expressions => checkAllLiterals expressions
  | group inner => checkLiterals inner

/-- Look for faults in expressions, from left to right. -/
def checkAllLiterals : List Expr → Except Failure Unit
  | [] => .ok ()
  | e :: es => do
    checkLiterals e
    checkAllLiterals es

end

end Expr

namespace Stmt

mutual

/-- Look for faults in a statement. -/
def checkLiterals : Stmt → Except Failure Unit
  | assign target value | augAssign target _ value => do
    target.checkLiterals
    value.checkLiterals
  | expr value | returnValue (some value) => value.checkLiterals
  | functionDef _ _ body | classDef _ body => checkBlockLiterals body
  | ifElse condition body alternate => do
    condition.checkLiterals
    checkBlockLiterals body
    checkAlternateLiterals alternate
  | whileLoop condition body orelse => do
    condition.checkLiterals
    checkBlockLiterals body
    checkBlockLiterals orelse
  | forLoop target iter body orelse => do
    target.checkLiterals
    iter.checkLiterals
    checkBlockLiterals body
    checkBlockLiterals orelse
  | returnValue none | importModule _ | breakLoop | continueLoop | pass => .ok ()

/-- Look for faults in the rest of a conditional. -/
def checkAlternateLiterals : Alternate → Except Failure Unit
  | .none => .ok ()
  | .elseIf condition body alternate => do
    condition.checkLiterals
    checkBlockLiterals body
    checkAlternateLiterals alternate
  | .otherwise body => checkBlockLiterals body

/-- Look for faults in statements, from the first to the last. -/
def checkBlockLiterals : List Stmt → Except Failure Unit
  | [] => .ok ()
  | s :: ss => do
    checkLiterals s
    checkBlockLiterals ss

end

end Stmt

/-- Look for faults in a program. -/
def Program.checkLiterals (p : Program) : Except Failure Unit :=
  Stmt.checkBlockLiterals p.statements

end Offside
