import Offside.Ast
import Offside.Target.Expr

/-!
# Offside.Lowering.Expr

Expressions of the source as JavaScript. The tree keeps its shape; parentheses
are added where the two languages group operators differently:

* `**` groups to the right in JavaScript, and takes no unary operation as its
  base;
* two signs in a row would read as an increment or a decrement.

Floor division becomes plain division.
-/

namespace Offside

/-- The counterpart of a binary operator. -/
def BinaryOp.lower : BinaryOp → Target.BinaryOp
  | add => .add
  | sub => .sub
  | mul => .mul
  | div | floorDiv => .div
  | mod => .mod
  | pow => .pow
  | eq => .eq
  | notEq => .notEq
  | lt => .lt
  | gt => .gt
  | ltEq => .ltEq
  | gtEq => .gtEq
  | and => .and
  | or => .or

/-- The counterpart of a literal. -/
def Literal.lower : Literal → Target.Expr
  | number value => .number value
  | string value => .string value
  | boolean value => .boolean value
  | null => .null

/-- The built-in functions with a counterpart of another name. -/
def intrinsics : List (String × String) :=
  [("print", "console.log"), ("input", "prompt"), ("int", "parseInt"), ("float", "parseFloat"),
    ("str", "String")]

theorem mem_of_lookup_eq_some {β : Type} {l : List (String × β)} {a : String} {b : β}
    (h : l.lookup a = some b) : (a, b) ∈ l := by
  obtain ⟨before, after, rfl, -⟩ := List.lookup_eq_some_iff.1 h
  exact List.mem_append_right _ List.mem_cons_self

/-- The counterpart of a called expression. -/
def lowerCallee : Target.Expr → Target.Expr
  | .name text => .name ((intrinsics.lookup text).getD text)
  | callee => callee

/-- The counterpart of `+` or `-` before an operand. -/
def lowerSign (op : Target.UnaryOp) (operand : Target.Expr) : Target.Expr :=
  .unary op (if operand.startsWithSign then .paren operand else operand)

namespace Expr

/-- An expression that needs parentheses as the base of `**`. -/
def needsParensAsBase : Expr → Bool
  | unary .. => true
  | binary _ .pow _ _ => true
  | _ => false

mutual

/-- The counterpart of an expression. -/
def lower : Expr → Target.Expr
  | ident name => .name name
  | literal value => value.lower
  | fstring quasis expressions => .template quasis (lowerAll expressions)
  | binary left op right _ =>
    let base := lower left
    let base := if op = .pow ∧ left.needsParensAsBase then .paren base else base
    .binary base op.lower (lower right)
  | unary .not operand => .unary .not (lower operand)
  | unary .neg operand => lowerSign .neg (lower operand)
  | unary .pos operand => lowerSign .pos (lower operand)
  | attr value name => .member (lower value) name
  | call callee args => .call (lowerCallee (lower callee)) (lowerAll args)
  | index target position => .index (lower target) (lower position)
  | list items => .array (lowerAll items)
  | group inner => .paren (lower inner)

/-- The counterparts of expressions. -/
def lowerAll : List Expr → List Target.Expr
  | [] => []
  | e :: es => lower e :: lowerAll es

end

theorem length_lowerAll (es : List Expr) : (lowerAll es).length = es.length := by
  induction es with
  | nil => rfl
  | cons e es ih => rw [lowerAll, List.length_cons, List.length_cons, ih]

/-- The JavaScript text of an expression. -/
def toCode (e : Expr) : String := e.lower.render

theorem renderAll_lowerAll (es : List Expr) :
    Target.Expr.renderAll (lowerAll es) = es.map toCode := by
  induction es with
  | nil => rfl
  | cons e es ih => rw [lowerAll, Target.Expr.renderAll, ih, List.map_cons, toCode]

end Expr

end Offside
