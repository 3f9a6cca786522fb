import Offside.Grammar.Expression

/-!
# Offside.Grammar.Statement

The grammar of statements. Simple statements fill the rest of their line or end
in a semicolon; compound statements have blocks, which stand between an
`indent` and a `dedent`.

```text
program     ::= (statement | dedent)*
statement   ::= newline | compound | simple ending
ending      ::= ";" | before newline, dedent or the end
block       ::= ":" newline indent statement* (dedent | the end)
compound    ::= "def" name "(" names ")" block | "class" name block
              | "if" expression block ("elif" expression block)* ("else" block)?
              | "for" primary "in" expression block ("else" block)?
              | "while" expression block ("else" block)?
simple      ::= "return" expression? | "import" name ("." name)*
              | "break" | "continue" | "pass"
              | expression (("=" | "+=" | …) expression)?
```
-/

namespace Offside.Grammar

/-! ### Simple statements -/

/-- A statement is over before a token of this kind. -/
def endsStatement (kind : TokenKind) : Bool := kind = .newline ∨ kind = .dedent ∨ kind = .eof

/-- The end of a simple statement. -/
def ending (ts : List Token) : Step 0 ts Unit :=
  match ts with
  | [] => .done ()
  | t :: _ =>
    if endsStatement t.kind then .done ()
    else if t.is .delimiter ";" then .loosen (.consume t (.done ()))
    else .fail (.parse t.line (.unfinished t))

/-- The parts of a dotted name after the first one. -/
def moreParts (ctx : Context) (ts : List Token) : Step 0 ts (List String) :=
  match ts with
  | [] => .done []
  | t :: us =>
    if t.kind = .dot then
      .loosen (.consume t
        ((expect ctx.endLine .identifier none us).andThen fun part vs _ =>
          (moreParts ctx vs).map (part.text :: ·)))
    else .done []
termination_by ts.length
decreasing_by grind

/-- The value of a `return`, if it has one. -/
def returned (ctx : Context) (ts : List Token) : Step 0 ts Stmt :=
  if endsStatement (peek ctx.endLine ts).kind then .done (.returnValue none)
  else .loosen ((expression ctx 0 ts).map fun value => .returnValue (some value))

/-- The operator of an assignment: `none` for the plain one. -/
def assignment? (t : Token) : Option (Option AugmentedOp) :=
  if t.kind = .operator then
    match AugmentedOp.ofSymbol? t.text with
    | some op => some (some op)
    | none => if t.text = "=" then some none else none
  else none

/-- The statement that assigns `value` to `target`. -/
def assigned (target value : Expr) : Option AugmentedOp → Stmt
  | some op => .augAssign target op value
  | none => .assign target value

/-- The rest of a statement on `line` that starts with the expression
`target`. Whether it can be assigned to is found out last. -/
def assignment (ctx : Context) (line : Nat) (target : Expr) (ts : List Token) : Step 0 ts Stmt :=
  match ts with
  | [] => .done (.expr target)
  | t :: us =>
    match assignment? t with
    | none => .done (.expr target)
    | some op =>
      .loosen (.consume t
        ((expression ctx 0 us).andThen fun value vs _ =>
          (if target.isTarget then .done (assigned target value op)
          else .fail (.parse line .invalidTarget) : Step 0 vs Stmt)))

/-- An expression, perhaps with an assignment to it. -/
def expressionStatement (ctx : Context) (ts : List Token) : Step 1 ts Stmt :=
  (expression ctx 0 ts).andThen fun target us _ =>
    assignment ctx (peek ctx.endLine ts).line target us

/-- A simple statement, without its end. -/
def simple (ctx : Context) (ts : List Token) : Step 1 ts Stmt :=
  match ts with
  | [] => expressionStatement ctx []
  | t :: us =>
    if t.is .keyword "return" then .consume t (returned ctx us)
    else if t.is .keyword "import" then
      .consume t
        ((expect ctx.endLine .identifier none us).andThen fun first vs _ =>
          (moreParts ctx vs).map fun parts => .importModule (first.text :: parts))
    else if t.is .keyword "break" then .consume t (.done .breakLoop)
    else if t.is .keyword "continue" then .consume t (.done .continueLoop)
    else if t.is .keyword "pass" then .consume t (.done .pass)
    else expressionStatement ctx (t :: us)

/-! ### Parameters -/

/-- The parameters after the first one, each with a comma before it, and the
parenthesis that closes the list. -/
def moreParameters (ctx : Context) (ts : List Token) : Step 1 ts (List String) :=
  match ts with
  | [] => (expect ctx.endLine .delimiter (some ")") []).map fun _ => []
  | t :: us =>
    if t.is .delimiter "," then
      .consume t
        ((expect ctx.endLine .identifier none us).andThen fun name vs _ =>
          (moreParameters ctx vs).map (name.text :: ·))
    else (expect ctx.endLine .delimiter (some ")") (t :: us)).map fun _ => []
termination_by ts.length
decreasing_by grind

/-- The parameters of a function, and the parenthesis that closes the list. -/
def parameters (ctx : Context) (ts : List Token) : Step 1 ts (List String) :=
  if (peek ctx.endLine ts).is .delimiter ")" then
    (expect ctx.endLine .delimiter (some ")") ts).map fun _ => []
  else
    (expect ctx.endLine .identifier none ts).andThen fun name us _ =>
      (moreParameters ctx us).map (name.text :: ·)

/-! ### Blocks and compound statements -/

mutual

/-- A statement. A line end alone is none. -/
def statement (ctx : Context) (ts : List Token) : Step 1 ts (Option Stmt) :=
  match ts with
  | [] => (simple ctx []).map some
  | t :: us =>
    if t.kind = .newline then .consume t (.done none)
    else if t.is .keyword "def" then .consume t ((functionDef ctx us).map some)
    else if t.is .keyword "class" then .consume t ((classDef ctx us).map some)
    else if t.is .keyword "if" then .consume t ((conditional ctx us).map some)
    else if t.is .keyword "for" then .consume t ((forLoop ctx us).map some)
    else if t.is .keyword "while" then .consume t ((whileLoop ctx us).map some)
    else
      (simple ctx (t :: us)).andThen fun stmt vs _ => (ending vs).map fun _ => some stmt
termination_by 2 * ts.length
decreasing_by all_goals grind

/-- A block of statements, from its colon on. -/
def block (ctx : Context) (ts : List Token) : Step 1 ts (List Stmt) :=
  (expect ctx.endLine .delimiter (some ":") ts).andThen fun _ us _ =>
    (expect ctx.endLine .newline none us).andThen fun _ vs _ =>
      (expect ctx.endLine .indent none vs).andThen fun _ ws _ => blockBody ctx ws
termination_by 2 * ts.length
decreasing_by grind

/-- The statements of a block up to its end. -/
def blockBody (ctx : Context) (ts : List Token) : Step 0 ts (List Stmt) :=
  match ts with
  | [] => .done []
  | t :: us =>
    if t.kind = .dedent then .loosen (.consume t (.done []))
    else
      .loosen ((statement ctx (t :: us)).andThen fun stmt vs _ =>
        (blockBody ctx vs).map (stmt.toList ++ ·))
termination_by 2 * ts.length + 1
decreasing_by all_goals grind

/-- A function definition after its keyword. -/
def functionDef (ctx : Context) (ts : List Token) : Step 1 ts Stmt :=
  (expect ctx.endLine .identifier none ts).andThen fun name us _ =>
    (expect ctx.endLine .delimiter (some "(") us).andThen fun _ vs _ =>
      (parameters ctx vs).andThen fun params ws _ =>
        (block ctx ws).map fun body => .functionDef name.text params body
termination_by 2 * ts.length
decreasing_by grind

/-- A class definition after its keyword. -/
def classDef (ctx : Context) (ts : List Token) : Step 1 ts Stmt :=
  (expect ctx.endLine .identifier none ts).andThen fun name us _ =>
    (block ctx us).map fun body => .classDef name.text body
termination_by 2 * ts.length
decreasing_by grind

/-- A conditional after its keyword. -/
def conditional (ctx : Context) (ts : List Token) : Step 1 ts Stmt :=
  (expression ctx 0 ts).andThen fun condition us _ =>
    (block ctx us).andThen fun body vs _ =>
      (alternate ctx vs).map fun rest => .ifElse condition body rest
termination_by 2 * ts.length
decreasing_by all_goals grind

/-- The rest of a conditional after one of its blocks. -/
def alternate (ctx : Context) (ts : List Token) : Step 0 ts Alternate :=
  match ts with
  | [] => .done .none
  | t :: us =>
    if t.is .keyword "elif" then
      .loosen (.consume t
        ((expression ctx 0 us).andThen fun condition vs _ =>
          (block ctx vs).andThen fun body ws _ =>
            (alternate ctx ws).map fun rest => .elseIf condition body rest))
    else if t.is .keyword "else" then .loosen (.consume t ((block ctx us).map .otherwise))
    else .done .none
termination_by 2 * ts.length
decreasing_by all_goals grind

/-- The `else` block of a loop, empty if there is none. -/
def loopElse (ctx : Context) (ts : List Token) : Step 0 ts (List Stmt) :=
  match ts with
  | [] => .done []
  | t :: us =>
    if t.is .keyword "else" then .loosen (.consume t (block ctx us)) else .done []
termination_by 2 * ts.length
decreasing_by grind

/-- A `for` loop after its keyword. -/
def forLoop (ctx : Context) (ts : List Token) : Step 1 ts Stmt :=
  (primary ctx ts).andThen fun target us _ =>
    (expect ctx.endLine .keyword (some "in") us).andThen fun _ vs _ =>
      (expression ctx 0 vs).andThen fun iter ws _ =>
        (block ctx ws).andThen fun body xs _ =>
          (loopElse ctx xs).map fun orelse => .forLoop target iter body orelse
termination_by 2 * ts.length
decreasing_by all_goals grind

/-- A `while` loop after its keyword. -/
def whileLoop (ctx : Context) (ts : List Token) : Step 1 ts Stmt :=
  (expression ctx 0 ts).andThen fun condition us _ =>
    (block ctx us).andThen fun body vs _ =>
      (loopElse ctx vs).map fun orelse => .whileLoop condition body orelse
termination_by 2 * ts.length
decreasing_by all_goals grind

end

/-! ### Programs -/

/-- The statements of a program. Blocks that close where none is open are
passed over. -/
def program (ctx : Context) (ts : List Token) : Step 0 ts (List Stmt) :=
  match ts with
  | [] => .done []
  | t :: us =>
    if t.kind = .dedent then .loosen (.consume t (program ctx us))
    else
      .loosen ((statement ctx (t :: us)).andThen fun stmt vs _ =>
        (program ctx vs).map (stmt.toList ++ ·))
termination_by ts.length
decreasing_by all_goals grind

end Offside.Grammar
