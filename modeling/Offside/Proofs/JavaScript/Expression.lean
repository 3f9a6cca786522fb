import Offside.Proofs.JavaScript.Lexeme

/-!
# Offside.Proofs.JavaScript.Expression

The grammar of JavaScript expressions, as far as the generated code uses it.
Binary operators other than `**` have a tier, and those of one tier group to the
left; `**` groups to the right and takes no unary operation as its base.

```text
operation 0  ::= unary | leftHandSide "**" operation 0
operation k  ::= operation (k - 1) (operator of tier k, operation (k - 1))*
unary        ::= ("-" | "+" | "!") unary | leftHandSide
leftHandSide ::= primary ("." name | "(" elements ")" | "[" operation 6 "]")*
primary      ::= name | number | string | template | "(" operation 6 ")" | "[" elements "]"
```

`Expr.read` reads a text, and refuses what the grammar above does not have.
-/

namespace Offside.Target

/-! ### Operators -/

namespace BinaryOp

/-- All operators, in declaration order. -/
def all : List BinaryOp :=
  [add, sub, mul, div, mod, pow, eq, notEq, lt, gt, ltEq, gtEq, and, or]

/-- The tier of an operator. The operator of the lower tier takes the operand
between two operators. -/
def tier : BinaryOp → Nat
  | pow => 0
  | mul | div | mod => 1
  | add | sub => 2
  | lt | gt | ltEq | gtEq => 3
  | eq | notEq => 4
  | and => 5
  | or => 6

end BinaryOp

/-- The binary operator of the given tier that a lexeme stands for. -/
def binaryOp? (tier : Nat) (x : Lexeme) : Option BinaryOp :=
  BinaryOp.all.find? fun op => op.tier = tier ∧ x = .punctuator op.symbol

/-- The unary operator that a lexeme stands for. -/
def unaryOp? (x : Lexeme) : Option UnaryOp :=
  [.neg, .pos, .not].find? fun op : UnaryOp => x = .punctuator op.symbol

/-! ### Names -/

/-- The words that name no variable. -/
def reservedWords : List String :=
  ["await", "break", "case", "catch", "class", "const", "continue", "debugger", "default",
    "delete", "do", "else", "enum", "export", "extends", "false", "finally", "for", "function",
    "if", "import", "in", "instanceof", "new", "null", "return", "super", "switch", "this",
    "throw", "true", "try", "typeof", "var", "void", "while", "with", "yield"]

/-- The expression that a name by itself is. -/
def named? (text : String) : Option Expr :=
  if text = "true" then some (.boolean true)
  else if text = "false" then some (.boolean false)
  else if text = "null" then some .null
  else if reservedWords.contains text then none
  else some (.name text)

/-! ### Readings -/

/-- What is read at the head of lexemes, and the lexemes after it, which are
fewer by at least `k`. -/
structure Reading (k : Nat) (ls : List Lexeme) (α : Type) where
  result : Option (α × List Lexeme)
  progress : ∀ a rest, result = some (a, rest) → rest.length + k ≤ ls.length

namespace Reading

variable {j k : Nat} {ls : List Lexeme} {α β : Type}

/-- Nothing is taken. -/
def done (a : α) : Reading 0 ls α :=
  ⟨some (a, ls), by rintro _ _ ⟨⟩; exact Nat.le_refl _⟩

/-- Nothing is read. -/
def fail : Reading k ls α := ⟨none, by rintro _ _ ⟨⟩⟩

/-- Take a lexeme. -/
def consume (x : Lexeme) (r : Reading k ls α) : Reading 1 (x :: ls) α :=
  ⟨r.result, fun a rest h => by
    have := r.progress a rest h
    simp only [List.length_cons]
    omega⟩

/-- Forget how many lexemes are taken. -/
def loosen (r : Reading k ls α) : Reading 0 ls α :=
  ⟨r.result, fun a rest h => Nat.le_trans (Nat.le_add_right _ k) (r.progress a rest h)⟩

/-- Apply a function to what is read. -/
def map (f : α → β) (r : Reading k ls α) : Reading k ls β :=
  ⟨r.result.map fun (a, rest) => (f a, rest), fun b rest h => by
    obtain ⟨⟨a, rest'⟩, hr, heq⟩ := Option.map_eq_some_iff.1 h
    cases heq
    exact r.progress a rest hr⟩

/-- Go on after what is read. -/
def andThen (r : Reading k ls α)
    (f : α → (ms : List Lexeme) → ms.length + k ≤ ls.length → Reading j ms β) :
    Reading k ls β :=
  match r with
  | ⟨some (a, ms), h⟩ =>
    let next := f a ms (h a ms rfl)
    ⟨next.result, fun b rest hb => by
      have := next.progress b rest hb
      have := h a ms rfl
      omega⟩
  | ⟨none, _⟩ => .fail

@[simp] theorem result_done (a : α) : (done a : Reading 0 ls α).result = some (a, ls) := rfl

@[simp] theorem result_consume (x : Lexeme) (r : Reading k ls α) :
    (consume x r).result = r.result := rfl

@[simp] theorem result_loosen (r : Reading k ls α) : r.loosen.result = r.result := rfl

@[simp] theorem result_map (f : α → β) (r : Reading k ls α) :
    (r.map f).result = r.result.map fun (a, rest) => (f a, rest) := rfl

theorem result_andThen {r : Reading k ls α} {a : α} {ms : List Lexeme}
    (h : r.result = some (a, ms))
    (f : α → (ms : List Lexeme) → ms.length + k ≤ ls.length → Reading j ms β) :
    ∃ hle, (r.andThen f).result = (f a ms hle).result := by
  obtain ⟨result, progress⟩ := r
  subst h
  exact ⟨progress a ms rfl, rfl⟩

end Reading

/-- Take the given punctuator. -/
def expect (symbol : String) : (ls : List Lexeme) → Reading 1 ls Unit
  | [] => .fail
  | x :: _ => if x = .punctuator symbol then .consume x (.done ()) else .fail

/-- The name of a field. -/
def field : (ls : List Lexeme) → Reading 1 ls String
  | .name text :: _ => .consume (.name text) (.done text)
  | _ => .fail

/-! ### The grammar -/

mutual

/-- An operation whose operators are of the given tier or below. -/
def operation (tier : Nat) (ls : List Lexeme) : Reading 1 ls Expr :=
  match tier with
  | 0 => power ls
  | tier + 1 => (operation tier ls).andThen fun left ms _ => operations (tier + 1) left ms
termination_by 16 * ls.length + tier + 6
decreasing_by all_goals grind

/-- The operators of a tier that follow the operand `left`, with their right
operands. -/
def operations (tier : Nat) (left : Expr) (ls : List Lexeme) : Reading 0 ls Expr :=
  match ls with
  | [] => .done left
  | x :: ms =>
    match binaryOp? tier x with
    | none => .done left
    | some op =>
      .loosen (.consume x
        ((operation (tier - 1) ms).andThen fun right ns _ =>
          operations tier (.binary left op right) ns))
termination_by 16 * ls.length + tier
decreasing_by all_goals grind

/-- A unary operation, or an operand with a power. -/
def power (ls : List Lexeme) : Reading 1 ls Expr :=
  match ls with
  | [] => .fail
  | x :: ms =>
    match unaryOp? x with
    | some _ => unary (x :: ms)
    | none => (leftHandSide (x :: ms)).andThen fun base ns _ => raised base ns
termination_by 16 * ls.length + 5
decreasing_by all_goals grind

/-- The power that `base` is raised to, if there is one. -/
def raised (base : Expr) (ls : List Lexeme) : Reading 0 ls Expr :=
  match ls with
  | [] => .done base
  | x :: ms =>
    if x = .punctuator "**" then .loosen (.consume x ((power ms).map (.binary base .pow)))
    else .done base
termination_by 16 * ls.length
decreasing_by all_goals grind

/-- An operand with the unary operators before it. -/
def unary (ls : List Lexeme) : Reading 1 ls Expr :=
  match ls with
  | [] => .fail
  | x :: ms =>
    match unaryOp? x with
    | some op => .consume x ((unary ms).map (.unary op))
    | none => leftHandSide (x :: ms)
termination_by 16 * ls.length + 4
decreasing_by all_goals grind

/-- An operand with the fields, calls and elements that are taken of it. -/
def leftHandSide (ls : List Lexeme) : Reading 1 ls Expr :=
  (primary ls).andThen fun base ms _ => accesses base ms
termination_by 16 * ls.length + 3
decreasing_by all_goals grind

/-- The fields, calls and elements that are taken of `base`. -/
def accesses (base : Expr) (ls : List Lexeme) : Reading 0 ls Expr :=
  match ls with
  | [] => .done base
  | x :: ms =>
    if x = .punctuator "." then
      .loosen (.consume x
        ((field ms).andThen fun name ns _ => accesses (.member base name) ns))
    else if x = .punctuator "(" then
      .loosen (.consume x
        ((elements ")" ms).andThen fun args ns _ => accesses (.call base args) ns))
    else if x = .punctuator "[" then
      .loosen (.consume x
        ((operation 6 ms).andThen fun position ns _ =>
          (expect "]" ns).andThen fun _ os _ => accesses (.index base position) os))
    else .done base
termination_by 16 * ls.length
decreasing_by all_goals grind

/-- The smallest expressions. -/
def primary (ls : List Lexeme) : Reading 1 ls Expr :=
  match ls with
  | [] => .fail
  | x :: ms =>
    match x with
    | .name text =>
      match named? text with
      | some e => .consume (.name text) (.done e)
      | none => .fail
    | .number value => .consume (.number value) (.done (.number value))
    | .string value => .consume (.string value) (.done (.string value))
    | .chunk true true text => .consume (.chunk true true text) (.done (.template [text] []))
    | .chunk true false text =>
      .consume (.chunk true false text)
        ((placeholders ms).map fun (quasis, es) => .template (text :: quasis) es)
    | .chunk false _ _ => .fail
    | .punctuator symbol =>
      if symbol = "(" then
        .consume (.punctuator symbol)
          ((operation 6 ms).andThen fun inner ns _ => (expect ")" ns).map fun _ => .paren inner)
      else if symbol = "[" then
        .consume (.punctuator symbol) ((elements "]" ms).map .array)
      else .fail
termination_by 16 * ls.length + 2
decreasing_by all_goals grind

/-- The expressions in the placeholders of a template literal, with the text
pieces after them, up to its end. -/
def placeholders (ls : List Lexeme) : Reading 1 ls (List String × List Expr) :=
  (operation 6 ls).andThen fun e ms _ => afterPlaceholder e ms
termination_by 16 * ls.length + 13
decreasing_by all_goals grind

/-- The text piece after a placeholder that holds `e`, and what follows it up to
the end of the literal. -/
def afterPlaceholder (e : Expr) (ls : List Lexeme) : Reading 1 ls (List String × List Expr) :=
  match ls with
  | .chunk false true text :: _ => .consume (.chunk false true text) (.done ([text], [e]))
  | .chunk false false text :: ms =>
    .consume (.chunk false false text)
      ((placeholders ms).map fun (quasis, es) => (text :: quasis, e :: es))
  | _ => .fail
termination_by 16 * ls.length
decreasing_by all_goals grind

/-- Expressions with commas between them, and the mark that closes them. -/
def elements (closing : String) (ls : List Lexeme) : Reading 1 ls (List Expr) :=
  match ls with
  | [] => .fail
  | x :: ms =>
    if x = .punctuator closing then .consume x (.done [])
    else
      (operation 6 (x :: ms)).andThen fun e ns _ => (moreElements closing ns).map (e :: ·)
termination_by 16 * ls.length + 13
decreasing_by all_goals grind

/-- The expressions after the first one, and the mark that closes them. -/
def moreElements (closing : String) (ls : List Lexeme) : Reading 1 ls (List Expr) :=
  match ls with
  | [] => .fail
  | x :: ms =>
    if x = .punctuator "," then .consume x (elements closing ms)
    else if x = .punctuator closing then .consume x (.done [])
    else .fail
termination_by 16 * ls.length
decreasing_by all_goals grind

end

/-- The expression that a text stands for, in parentheses where the text has
them. -/
def Expr.read (text : String) : Option Expr :=
  (Lexeme.scan 0 text.toList).bind fun ls =>
    match (operation 6 ls).result with
    | some (e, []) => some e
    | _ => none

end Offside.Target
