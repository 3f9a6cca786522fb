import Offside.Ast

/-!
# Offside.Analysis.Breaks

Whether statements hold a `break`, at any depth. Functions and classes have a
control flow of their own and are not looked into.
-/

namespace Offside.Stmt

mutual

/-- A statement holds a `break`. -/
def hasBreak : Stmt → Bool
  | breakLoop => true
  | ifElse _ body alternate => blockHasBreak body || alternateHasBreak alternate
  | whileLoop _ body orelse | forLoop _ _ body orelse =>
    blockHasBreak body || blockHasBreak orelse
  | _ => false

/-- The rest of a conditional holds a `break`. -/
def alternateHasBreak : Alternate → Bool
  | .none => false
  | .elseIf _ body alternate => blockHasBreak body || alternateHasBreak alternate
  | .otherwise body => blockHasBreak body

/-- A block holds a `break`. -/
def blockHasBreak : List Stmt → Bool
  | [] => false
  | s :: ss => hasBreak s || blockHasBreak ss

end

end Offside.Stmt
