import Offside.Target.Expr

/-!
# Offside.Target.Stmt

Statements of the generated JavaScript, and the lines they are written on. A
line has a depth and a text; the width of the indentation comes in only when
lines become text.
-/

namespace Offside.Target

/-- A construct that has no counterpart and is written as a comment. -/
structure Degradation where
  /-- The kind of the construct. -/
  node : String
  /-- What about it has no counterpart. -/
  detail : String
deriving DecidableEq, Repr

/-- The header of a loop. -/
inductive LoopHeader where
  | whileTrue (condition : Expr)
  /-- A loop over the elements of a value. -/
  | each (target iterable : Expr)
  /-- A loop that counts down or up from `start` to `stop`, by the amount with
  the given text. -/
  | counted (target start stop : Expr) (descending : Bool) (amount : String)
deriving Repr

mutual

/-- Statements. -/
inductive Stmt where
  | assign (target value : Expr)
  /-- A static field of a class. -/
  | staticField (name value : Expr)
  /-- `target op= value`. -/
  | update (target : Expr) (op : BinaryOp) (value : Expr)
  | expr (value : Expr)
  | returnValue (value : Option Expr)
  | breakLoop
  | continueLoop
  | empty
  /-- A comment that names an imported module. -/
  | importNote (name : String)
  /-- A comment in place of a construct without a counterpart. -/
  | unsupported (degradation : Degradation)
  /-- Declare a flag and set it. -/
  | setFlag (flag : String)
  /-- Clear a flag. -/
  | clearFlag (flag : String)
  | loop (header : LoopHeader) (body : List Stmt)
  /-- Statements that run if a flag is still set. -/
  | ifFlag (flag : String) (body : List Stmt)
  | ifElse (condition : Expr) (body : List Stmt) (alternate : Alternate)
  | function (name : String) (params : List String) (body : List Stmt)
  | method (name : String) (params : List String) (body : List Stmt)
  | classDef (name : String) (body : List Stmt)

/-- What follows the first block of a conditional. -/
inductive Alternate where
  | none
  | elseIf (condition : Expr) (body : List Stmt) (alternate : Alternate)
  | otherwise (body : List Stmt)

end

/-! ### Lines -/

/-- A line of code. -/
structure Line where
  /-- How many blocks the line is in. -/
  depth : Nat
  text : String
deriving DecidableEq, Repr

/-- The text of a line, `width` spaces for each level of depth. -/
def Line.render (width : Nat) (l : Line) : String :=
  String.ofList (List.replicate (l.depth * width) ' ') ++ l.text

/-- The text of lines. -/
def renderLines (width : Nat) (ls : List Line) : String :=
  "\n".intercalate (ls.map (Line.render width))

/-- The text of a loop header. -/
def LoopHeader.render : LoopHeader → String
  | whileTrue condition => "while (" ++ condition.render ++ ")"
  | each target iterable => "for (var " ++ target.render ++ " of " ++ iterable.render ++ ")"
  | counted target start stop descending amount =>
    let t := target.render
    "for (var " ++ t ++ " = " ++ start.render ++ "; " ++ t ++ (if descending then " > " else " < ") ++
      stop.render ++ "; " ++ t ++ (if descending then " -= " else " += ") ++ amount ++ ")"

/-- The text of a parameter list. -/
def parameterList (params : List String) : String := "(" ++ ", ".intercalate params ++ ")"

/-- The line that opens a block. -/
def openLine (depth : Nat) (header : String) : Line := ⟨depth, header ++ " \x7b"⟩

/-- The line that closes a block. -/
def closeLine (depth : Nat) : Line := ⟨depth, "\x7d"⟩

/-- The lines of a block. One without statements has a line without text. -/
def orBlankLine : List Line → List Line
  | [] => [⟨0, ""⟩]
  | ls => ls

theorem orBlankLine_of_ne_nil {ls : List Line} (h : ls ≠ []) : orBlankLine ls = ls := by
  cases ls with
  | nil => exact absurd rfl h
  | cons l ls => rfl

theorem sublist_orBlankLine (ls : List Line) : ls.Sublist (orBlankLine ls) := by
  cases ls with
  | nil => exact List.nil_sublist _
  | cons l ls => exact List.Sublist.refl _

namespace Stmt

mutual

/-- The lines of a statement at a depth. -/
def lines (depth : Nat) : Stmt → List Line
  | assign target value => [⟨depth, target.render ++ " = " ++ value.render ++ ";"⟩]
  | staticField name value => [⟨depth, "static " ++ name.render ++ " = " ++ value.render ++ ";"⟩]
  | update target op value =>
    [⟨depth, target.render ++ " " ++ op.symbol ++ "= " ++ value.render ++ ";"⟩]
  | expr value => [⟨depth, value.render ++ ";"⟩]
  | returnValue (some value) => [⟨depth, "return " ++ value.render ++ ";"⟩]
  | returnValue none => [⟨depth, "return;"⟩]
  | breakLoop => [⟨depth, "break;"⟩]
  | continueLoop => [⟨depth, "continue;"⟩]
  | empty => [⟨depth, ";"⟩]
  | importNote name => [⟨depth, "// import " ++ name⟩]
  | unsupported degradation => [⟨depth, "/* Unsupported " ++ degradation.detail ++ " */"⟩]
  | setFlag flag => [⟨depth, "let " ++ flag ++ " = true;"⟩]
  | clearFlag flag => [⟨depth, flag ++ " = false;"⟩]
  | loop header body =>
    openLine depth header.render :: (orBlankLine (blockLines (depth + 1) body) ++ [closeLine depth])
  | ifFlag flag body =>
    openLine depth ("if (" ++ flag ++ ")") ::
      (orBlankLine (blockLines (depth + 1) body) ++ [closeLine depth])
  | ifElse condition body alternate =>
    openLine depth ("if (" ++ condition.render ++ ")") ::
      (orBlankLine (blockLines (depth + 1) body) ++ alternateLines depth alternate)
  | function name params body =>
    openLine depth ("function " ++ name ++ parameterList params) ::
      (orBlankLine (blockLines (depth + 1) body) ++ [closeLine depth])
  | method name params body =>
    openLine depth (name ++ parameterList params) ::
      (orBlankLine (blockLines (depth + 1) body) ++ [closeLine depth])
  | classDef name body =>
    openLine depth ("class " ++ name) ::
      (orBlankLine (blockLines (depth + 1) body) ++ [closeLine depth])

/-- The lines of the rest of a conditional, from the brace that closes the
block before it. -/
def alternateLines (depth : Nat) : Alternate → List Line
  | .none => [closeLine depth]
  | .elseIf condition body alternate =>
    openLine depth ("\x7d else if (" ++ condition.render ++ ")") ::
      (orBlankLine (blockLines (depth + 1) body) ++ alternateLines depth alternate)
  | .otherwise body =>
    openLine depth "\x7d else" :: (orBlankLine (blockLines (depth + 1) body) ++ [closeLine depth])

/-- The lines of statements at a depth. -/
def blockLines (depth : Nat) : List Stmt → List Line
  | [] => []
  | s :: ss => lines depth s ++ blockLines depth ss

end

/-! ### Degradations -/

mutual

/-- The comments in place of constructs, in a statement. -/
def degradations : Stmt → List Degradation
  | unsupported degradation => [degradation]
  | loop _ body | ifFlag _ body | function _ _ body | method _ _ body | classDef _ body =>
    blockDegradations body
  | ifElse _ body alternate => blockDegradations body ++ alternateDegradations alternate
  | _ => []

/-- The comments in place of constructs, in the rest of a conditional. -/
def alternateDegradations : Alternate → List Degradation
  | .none => []
  | .elseIf _ body alternate => blockDegradations body ++ alternateDegradations alternate
  | .otherwise body => blockDegradations body

/-- The comments in place of constructs, in statements. -/
def blockDegradations : List Stmt → List Degradation
  | [] => []
  | s :: ss => degradations s ++ blockDegradations ss

end

end Stmt

end Offside.Target
