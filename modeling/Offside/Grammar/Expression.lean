import Offside.Ast
import Offside.Decimal.Numeral
import Offside.Grammar.Step
import Offside.Text.Literal

/-!
# Offside.Grammar.Expression

The grammar of expressions, by precedence climbing: every binary operator takes
its right operand with a greater binding power than its own, so operators of
the same power group to the left.

```text
expression  ::= unary (operator unary)*
unary       ::= ("-" | "+" | "not") unary | primary
primary     ::= atom ("." name | "(" arguments ")" | "[" expression "]")*
atom        ::= number | string | f-string | "True" | "False" | "None" | name
              | "(" expression ")" | "[" items "]"
arguments   ::= (expression ("," expression)*)?
items       ::= (expression ("," expression)* ","?)?
```

The reading of f-strings is a parameter: the text of one is not made of tokens.
-/

namespace Offside.Grammar

/-- A reader of f-strings: from the text of one and its line, the text pieces
and the expressions between them. -/
abbrev Reader := String → Nat → Except Failure (List String × List Expr)

/-- What the grammar needs to know besides the tokens. -/
structure Context where
  /-- The line that is reported for the end of the input. -/
  endLine : Nat
  /-- Reads the f-strings. -/
  fstring : Reader

/-- The binary operator that a token stands for. -/
def binaryOp? (t : Token) : Option BinaryOp :=
  match t.kind with
  | .operator => BinaryOp.ofSymbol? t.text
  | .keyword => if t.text = "and" then some .and else if t.text = "or" then some .or else none
  | _ => none

/-- The unary operator that a token stands for. -/
def unaryOp? (t : Token) : Option UnaryOp :=
  if t.is .operator "-" then some .neg
  else if t.is .operator "+" then some .pos
  else if t.is .keyword "not" then some .not
  else none

/-- The constant that a keyword stands for. -/
def constant? (text : String) : Option Literal :=
  if text = "True" then some (.boolean true)
  else if text = "False" then some (.boolean false)
  else if text = "None" then some .null
  else none

/-- The failure at a token that starts no expression. -/
def unexpected (t : Token) : Failure := .parse t.line (.unexpected t)

mutual

/-- An expression whose operators all have at least the binding power
`minPower`. -/
def expression (ctx : Context) (minPower : Nat) (ts : List Token) : Step 1 ts Expr :=
  (unary ctx ts).andThen fun left us _ => climb ctx minPower left us
termination_by 8 * ts.length + 5

/-- The operators of power at least `minPower` that follow the operand `left`,
with their right operands. -/
def climb (ctx : Context) (minPower : Nat) (left : Expr) (ts : List Token) : Step 0 ts Expr :=
  match ts with
  | [] => .done left
  | t :: us =>
    match binaryOp? t with
    | none => .done left
    | some op =>
      if op.precedence < minPower then .done left
      else
        .loosen (.consume t
          ((expression ctx (op.precedence + 1) us).andThen fun right vs _ =>
            climb ctx minPower (.binary left op right t.line) vs))
termination_by 8 * ts.length
decreasing_by all_goals grind

/-- An operand with the unary operators before it. -/
def unary (ctx : Context) (ts : List Token) : Step 1 ts Expr :=
  match ts with
  | [] => primary ctx []
  | t :: us =>
    match unaryOp? t with
    | some op => .consume t ((unary ctx us).map (.unary op))
    | none => primary ctx (t :: us)
termination_by 8 * ts.length + 4
decreasing_by all_goals grind

/-- An atom with the attributes, calls and indices after it. -/
def primary (ctx : Context) (ts : List Token) : Step 1 ts Expr :=
  (atom ctx ts).andThen fun base us _ => trailers ctx base us
termination_by 8 * ts.length + 3

/-- The attributes, calls and indices that follow `base`. -/
def trailers (ctx : Context) (base : Expr) (ts : List Token) : Step 0 ts Expr :=
  match ts with
  | [] => .done base
  | t :: us =>
    if t.kind = .dot then
      .loosen (.consume t
        ((expect ctx.endLine .identifier none us).andThen fun name vs _ =>
          trailers ctx (.attr base name.text) vs))
    else if t.is .delimiter "(" then
      .loosen (.consume t
        ((arguments ctx us).andThen fun args vs _ => trailers ctx (.call base args) vs))
    else if t.is .delimiter "[" then
      .loosen (.consume t
        ((expression ctx 0 us).andThen fun position vs _ =>
          (expect ctx.endLine .delimiter (some "]") vs).andThen fun _ ws _ =>
            trailers ctx (.index base position) ws))
    else .done base
termination_by 8 * ts.length
decreasing_by all_goals grind

/-- The smallest expressions. -/
def atom (ctx : Context) (ts : List Token) : Step 1 ts Expr :=
  match ts with
  | [] => .fail (unexpected (Token.eof ctx.endLine))
  | t :: us =>
    match t.kind with
    | .number =>
      .consume t
        (match Numeral.read? t.text with
        | some value => .done (.literal (.number value))
        | none => .fail (.parse t.line (.invalidNumber t.text)))
    | .string => .consume t (.done (.literal (.string (Text.unescape t.text))))
    | .fstring =>
      .consume t
        (.ofExcept ((ctx.fstring t.text t.line).map fun (quasis, expressions) =>
          .fstring quasis expressions))
    | .identifier => .consume t (.done (.ident t.text))
    | .keyword =>
      match constant? t.text with
      | some value => .consume t (.done (.literal value))
      | none => .fail (unexpected t)
    | .delimiter =>
      if t.text = "(" then
        .consume t
          ((expression ctx 0 us).andThen fun inner vs _ =>
            (expect ctx.endLine .delimiter (some ")") vs).map fun _ => .group inner)
      else if t.text = "[" then .consume t ((items ctx us).map .list)
      else .fail (unexpected t)
    | _ => .fail (unexpected t)
termination_by 8 * ts.length + 2
decreasing_by all_goals grind

/-- The arguments of a call, and the parenthesis that closes it. -/
def arguments (ctx : Context) (ts : List Token) : Step 1 ts (List Expr) :=
  if (peek ctx.endLine ts).is .delimiter ")" then
    (expect ctx.endLine .delimiter (some ")") ts).map fun _ => []
  else (expression ctx 0 ts).andThen fun arg us _ => (moreArguments ctx us).map (arg :: ·)
termination_by 8 * ts.length + 6

/-- The arguments after the first one, each with a comma before it, and the
parenthesis that closes the call. -/
def moreArguments (ctx : Context) (ts : List Token) : Step 1 ts (List Expr) :=
  match ts with
  | [] => (expect ctx.endLine .delimiter (some ")") []).map fun _ => []
  | t :: us =>
    if t.is .delimiter "," then
      .consume t
        ((expression ctx 0 us).andThen fun arg vs _ => (moreArguments ctx vs).map (arg :: ·))
    else (expect ctx.endLine .delimiter (some ")") (t :: us)).map fun _ => []
termination_by 8 * ts.length
decreasing_by all_goals grind

/-- The items of a list, and the bracket that closes it. -/
def items (ctx : Context) (ts : List Token) : Step 1 ts (List Expr) :=
  if (peek ctx.endLine ts).is .delimiter "]" then
    (expect ctx.endLine .delimiter (some "]") ts).map fun _ => []
  else (expression ctx 0 ts).andThen fun item us _ => (moreItems ctx us).map (item :: ·)
termination_by 8 * ts.length + 6

/-- The items after the first one, each with a comma before it, and the bracket
that closes the list. A comma may also stand before the bracket. -/
def moreItems (ctx : Context) (ts : List Token) : Step 1 ts (List Expr) :=
  match ts with
  | [] => (expect ctx.endLine .delimiter (some "]") []).map fun _ => []
  | t :: us =>
    if t.is .delimiter "," then .consume t (items ctx us)
    else (expect ctx.endLine .delimiter (some "]") (t :: us)).map fun _ => []
termination_by 8 * ts.length
decreasing_by all_goals grind

end

end Offside.Grammar
