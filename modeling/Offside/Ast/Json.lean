import Offside.Ast
import Offside.Json

/-!
# Offside.Ast.Json

The syntax tree as data. A node with named parts is an object with one field,
named for the node; a node without parts is a string.
-/

namespace Offside

/-- A node with named parts. -/
def Json.node (name : String) (parts : List (String × Json)) : Json :=
  .object [(name, .object parts)]

/-- A node with one part that has no name. -/
def Json.wrapped (name : String) (part : Json) : Json := .object [(name, part)]

/-- A literal as data. -/
def Literal.toJson (l : Literal) : Json :=
  let kind := ("kind", Json.string l.kind.dataName)
  match l with
  | .number x => .object [kind, ("value", .number x)]
  | .string s => .object [kind, ("value", .string s)]
  | .boolean b => .object [kind, ("value", .boolean b)]
  | .null => .object [kind]

namespace Expr

mutual

/-- An expression as data. -/
def toJson : Expr → Json
  | ident name => .wrapped "Ident" (.string name)
  | literal value => .wrapped "Literal" value.toJson
  | fstring quasis expressions =>
    .node "FString"
      [("quasis", .array (quasis.map .string)), ("expressions", .array (toJsons expressions))]
  | binary left op right line =>
    .node "BinOp"
      [("left", toJson left), ("op", .string op.dataName), ("right", toJson right),
        ("line", .natural line)]
  | unary op operand =>
    .node "UnaryOp" [("op", .string op.dataName), ("operand", toJson operand)]
  | attr value name => .node "Attribute" [("value", toJson value), ("attr", .string name)]
  | call callee args => .node "Call" [("func", toJson callee), ("args", .array (toJsons args))]
  | index target position =>
    .node "Index" [("target", toJson target), ("index", toJson position)]
  | list items => .wrapped "List" (.array (toJsons items))
  | group inner => .wrapped "Group" (toJson inner)

/-- A list of expressions as data. -/
def toJsons : List Expr → List Json
  | [] => []
  | e :: es => toJson e :: toJsons es

end

end Expr

namespace Stmt

mutual

/-- A statement as data. -/
def toJson : Stmt → Json
  | assign target value => .node "Assign" [("target", target.toJson), ("value", value.toJson)]
  | augAssign target op value =>
    .node "AugAssign"
      [("target", target.toJson), ("op", .string op.dataName), ("value", value.toJson)]
  | expr value => .wrapped "Expr" value.toJson
  | returnValue value => .wrapped "Return" (.ofOption Expr.toJson value)
  | functionDef name params body =>
    .node "FuncDef"
      [("name", .string name), ("params", .array (params.map .string)),
        ("body", .array (toJsons body))]
  | ifElse condition body alternate =>
    .node "If"
      [("condition", condition.toJson), ("then_body", .array (toJsons body)),
        ("alternate", alternateToJson alternate)]
  | whileLoop condition body orelse =>
    .node "While"
      [("condition", condition.toJson), ("body", .array (toJsons body)),
        ("orelse", .array (toJsons orelse))]
  | forLoop target iter body orelse =>
    .node "For"
      [("target", target.toJson), ("iter", iter.toJson), ("body", .array (toJsons body)),
        ("orelse", .array (toJsons orelse))]
  | classDef name body =>
    .node "ClassDef" [("name", .string name), ("body", .array (toJsons body))]
  | importModule path => .node "Import" [("module", .string (dottedName path))]
  | breakLoop => .string "Break"
  | continueLoop => .string "Continue"
  | pass => .string "Pass"

/-- The rest of a conditional as data. -/
def alternateToJson : Alternate → Json
  | .none => .string "None"
  | .elseIf condition body alternate =>
    .node "Elif"
      [("condition", condition.toJson), ("then_body", .array (toJsons body)),
        ("alternate", alternateToJson alternate)]
  | .otherwise body => .wrapped "Else" (.array (toJsons body))

/-- A list of statements as data. -/
def toJsons : List Stmt → List Json
  | [] => []
  | s :: ss => toJson s :: toJsons ss

end

end Stmt

/-- A program as data. -/
def Program.toJson (p : Program) : Json :=
  .object [("statements", .array (Stmt.toJsons p.statements))]

end Offside
