import Offside.Decimal.Style
import Offside.Text.Literal

/-!
# Offside.Target.Expr

Expressions of the generated JavaScript. Parentheses are nodes of the tree, and
`Expr.render` adds none: it writes the tree as it is.
-/

namespace Offside.Target

/-- Binary operators. -/
inductive BinaryOp where
  | add
  | sub
  | mul
  | div
  | mod
  | pow
  | eq
  | notEq
  | lt
  | gt
  | ltEq
  | gtEq
  | and
  | or
deriving DecidableEq, Repr

/-- The text of a binary operator. -/
def BinaryOp.symbol : BinaryOp → String
  | add => "+"
  | sub => "-"
  | mul => "*"
  | div => "/"
  | mod => "%"
  | pow => "**"
  | eq => "=="
  | notEq => "!="
  | lt => "<"
  | gt => ">"
  | ltEq => "<="
  | gtEq => ">="
  | and => "&&"
  | or => "||"

/-- Unary operators. -/
inductive UnaryOp where
  | neg
  | pos
  | not
deriving DecidableEq, Repr

/-- The text of a unary operator. -/
def UnaryOp.symbol : UnaryOp → String
  | neg => "-"
  | pos => "+"
  | not => "!"

/-- Expressions. -/
inductive Expr where
  /-- A variable or a built-in function, which may have a dotted name. -/
  | name (text : String)
  | number (value : Binary64)
  | string (value : String)
  | boolean (value : Bool)
  | null
  /-- A template literal: the text pieces around its placeholders, and the
  expressions in them. -/
  | template (quasis : List String) (substitutions : List Expr)
  | binary (left : Expr) (op : BinaryOp) (right : Expr)
  | unary (op : UnaryOp) (operand : Expr)
  /-- `value.field`. -/
  | member (value : Expr) (field : String)
  | call (callee : Expr) (args : List Expr)
  /-- `target[position]`. -/
  | index (target position : Expr)
  | array (items : List Expr)
  | paren (inner : Expr)
deriving Repr

/-! ### Template literals -/

/-- The characters of a text piece in a template literal. The backslash, the
backquote and the start of a placeholder follow a backslash, and line ends have
letters. -/
def escapeTemplateChars : List Char → List Char
  | [] => []
  | '\\' :: cs => '\\' :: '\\' :: escapeTemplateChars cs
  | '\x60' :: cs => '\\' :: '\x60' :: escapeTemplateChars cs
  | '$' :: '\x7b' :: cs => '\\' :: '$' :: '\x7b' :: escapeTemplateChars cs
  | '\n' :: cs => '\\' :: 'n' :: escapeTemplateChars cs
  | '\r' :: cs => '\\' :: 'r' :: escapeTemplateChars cs
  | c :: cs => c :: escapeTemplateChars cs

/-- A text piece in a template literal. -/
def escapeTemplate (s : String) : String := String.ofList (escapeTemplateChars s.toList)

/-- The inside of a template literal: each text piece, with a placeholder after
it as long as there are expressions. -/
def templateBody : List String → List String → String
  | [], _ => ""
  | quasi :: quasis, [] => escapeTemplate quasi ++ templateBody quasis []
  | quasi :: quasis, code :: codes =>
    escapeTemplate quasi ++ "$\x7b" ++ code ++ "\x7d" ++ templateBody quasis codes

/-! ### Texts of expressions -/

namespace Expr

mutual

/-- The text of an expression. -/
def render : Expr → String
  | name text => text
  | number value => value.toCode
  | string value => Text.quote value
  | boolean true => "true"
  | boolean false => "false"
  | null => "null"
  | template quasis substitutions =>
    "\x60" ++ templateBody quasis (renderAll substitutions) ++ "\x60"
  | binary left op right => render left ++ " " ++ op.symbol ++ " " ++ render right
  | unary op operand => op.symbol ++ render operand
  | member value field => render value ++ "." ++ field
  | call callee args => render callee ++ "(" ++ ", ".intercalate (renderAll args) ++ ")"
  | index target position => render target ++ "[" ++ render position ++ "]"
  | array items => "[" ++ ", ".intercalate (renderAll items) ++ "]"
  | paren inner => "(" ++ render inner ++ ")"

/-- The texts of expressions. -/
def renderAll : List Expr → List String
  | [] => []
  | e :: es => render e :: renderAll es

end

/-- The text of an expression starts with a sign. -/
def startsWithSign (e : Expr) : Bool :=
  match e.render.toList with
  | c :: _ => c = '-' ∨ c = '+'
  | [] => false

end Expr

end Offside.Target
