import Offside.Ast.Operator
import Offside.Decimal.Binary64

/-!
# Offside.Ast

The syntax tree of the source language: a small part of Python, with functions,
classes, conditionals, loops that may have an `else` block, and f-strings.
-/

namespace Offside

/-- Literals other than lists and f-strings. -/
inductive Literal where
  | number (value : Binary64)
  | string (value : String)
  | boolean (value : Bool)
  | null
deriving DecidableEq, Repr

/-- The type of a literal. -/
inductive LiteralKind where
  | number
  | string
  | boolean
  | null
deriving DecidableEq, Repr

/-- The type of a literal. -/
def Literal.kind : Literal → LiteralKind
  | number _ => .number
  | string _ => .string
  | boolean _ => .boolean
  | null => .null

/-- The name of a literal type in a dumped syntax tree. -/
def LiteralKind.dataName : LiteralKind → String
  | number => "number"
  | string => "string"
  | boolean => "boolean"
  | null => "null"

/-- Expressions. -/
inductive Expr where
  | ident (name : String)
  | literal (value : Literal)
  /-- An f-string: the text pieces around its placeholders, and the expressions
  in them. -/
  | fstring (quasis : List String) (expressions : List Expr)
  /-- A binary operation, with the line of its operator. -/
  | binary (left : Expr) (op : BinaryOp) (right : Expr) (line : Nat)
  | unary (op : UnaryOp) (operand : Expr)
  /-- `value.name`. -/
  | attr (value : Expr) (name : String)
  | call (callee : Expr) (args : List Expr)
  /-- `target[position]`. -/
  | index (target position : Expr)
  | list (items : List Expr)
  /-- An expression in parentheses. -/
  | group (inner : Expr)
deriving Repr

namespace Expr

/-- Names, attributes and elements can be assigned to. -/
def isTarget : Expr → Bool
  | ident _ | attr .. | index .. => true
  | _ => false

/-- The type of an expression that is a literal. -/
def literalKind? : Expr → Option LiteralKind
  | literal value => some value.kind
  | _ => none

end Expr

mutual

/-- Statements. -/
inductive Stmt where
  | assign (target value : Expr)
  | augAssign (target : Expr) (op : AugmentedOp) (value : Expr)
  | expr (value : Expr)
  | returnValue (value : Option Expr)
  | functionDef (name : String) (params : List String) (body : List Stmt)
  | ifElse (condition : Expr) (body : List Stmt) (alternate : Alternate)
  /-- A `while` loop. The `orelse` block runs when the loop ends without
  `break`. -/
  | whileLoop (condition : Expr) (body orelse : List Stmt)
  /-- A `for` loop. The `orelse` block runs when the loop ends without
  `break`. -/
  | forLoop (target iter : Expr) (body orelse : List Stmt)
  | classDef (name : String) (body : List Stmt)
  /-- An import of a module, given by the parts of its dotted name. -/
  | importModule (path : List String)
  | breakLoop
  | continueLoop
  | pass

/-- What follows the first block of a conditional. -/
inductive Alternate where
  | none
  | elseIf (condition : Expr) (body : List Stmt) (alternate : Alternate)
  | otherwise (body : List Stmt)

end

/-- The dotted name of a module, from its parts. -/
def dottedName (path : List String) : String := ".".intercalate path

/-- A program is a list of statements. -/
structure Program where
  statements : List Stmt

end Offside
