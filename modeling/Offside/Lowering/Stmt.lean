import Offside.Analysis.Breaks
import Offside.Lowering.Expr
import Offside.Target.Stmt
import Offside.Text.Ranges

/-!
# Offside.Lowering.Stmt

Statements of the source as JavaScript.

The `else` block of a loop runs when the loop ends without `break`. If the loop
has no `break`, the block simply follows it. Otherwise a flag is set before the
loop, cleared at each `break`, and tested after the loop. Flags are numbered as
they are needed; the number of flags so far is the state of the lowering.
-/

namespace Offside

/-- What is around a statement. -/
structure Scope where
  /-- The statement stands directly in a class. -/
  inClass : Bool
  /-- The flag of the loop around the statement, if that loop has one. -/
  flag : Option String
deriving DecidableEq, Repr

namespace Scope

/-- The outermost scope, and that of a function's body. -/
def top : Scope := ⟨false, none⟩

/-- The body of a class. -/
def classBody : Scope := ⟨true, none⟩

/-- The body of a loop with the given flag. -/
def loopBody (flag : Option String) : Scope := ⟨false, flag⟩

/-- A block of a conditional, or the `else` block of a loop. -/
def branch (scope : Scope) : Scope := ⟨false, scope.flag⟩

end Scope

/-! ### Flags -/

/-- Computations that may need new flags; the state is the number of flags so
far. -/
abbrev FlagM := StateM Nat

/-- The name of a flag. -/
def flagName (n : Nat) : String := "_loop_completed_" ++ toString n

/-- A new flag. -/
def newFlag : FlagM String := fun n => (flagName (n + 1), n + 1)

/-- The flag of a loop. It needs one if it has an `else` block and can end by a
`break`. -/
def loopFlag (body orelse : List Stmt) : FlagM (Option String) :=
  if !orelse.isEmpty && Stmt.blockHasBreak body then some <$> newFlag else pure none

/-! ### Loop headers -/

/-- The header of a loop that counts by the given step. A step whose text
starts with a minus counts down. -/
def countedHeader (target start stop step : Target.Expr) : Target.LoopHeader :=
  match (Text.withoutBlanks step.render).toList with
  | '-' :: amount => .counted target start stop true (String.ofList amount)
  | amount => .counted target start stop false (String.ofList amount)

/-- A whole number in generated code. -/
def Target.Expr.ofNat (n : Nat) : Target.Expr := .number (Binary64.ofDecimal false ⟨n, 0⟩)

/-- The header of a loop over a range with the given arguments. -/
def rangeHeader (target : Target.Expr) :
    List Target.Expr → Except Target.Degradation Target.LoopHeader
  | [stop] => .ok (countedHeader target (.ofNat 0) stop (.ofNat 1))
  | [start, stop] => .ok (countedHeader target start stop (.ofNat 1))
  | [start, stop, step] => .ok (countedHeader target start stop step)
  | args =>
    .error ⟨"ForStatement", "range arguments (" ++ toString args.length ++ " given)"⟩

/-- The header of a loop of `target` over `iter`. -/
def loopHeader (target iter : Expr) : Except Target.Degradation Target.LoopHeader :=
  match iter with
  | .call (.ident "range") args => rangeHeader target.lower (Expr.lowerAll args)
  | _ => .ok (.each target.lower iter.lower)

/-- A loop with its flag and its `else` block. -/
def completed (flag : Option String) (header : Target.LoopHeader)
    (body orelse : List Target.Stmt) : List Target.Stmt :=
  match flag with
  | some f => [.setFlag f, .loop header body, .ifFlag f orelse]
  | none => .loop header body :: orelse

/-! ### Statements -/

/-- The counterpart of the operator of an augmented assignment. -/
def AugmentedOp.lower : AugmentedOp → Target.BinaryOp
  | add => .add
  | sub => .sub
  | mul => .mul
  | div | floorDiv => .div
  | mod => .mod
  | pow => .pow

/-- The counterpart of an assignment. In a class, a name becomes a static
field. -/
def lowerAssign (scope : Scope) (target value : Expr) : Target.Stmt :=
  match scope.inClass, target with
  | true, .ident _ => .staticField target.lower value.lower
  | _, _ => .assign target.lower value.lower

namespace Stmt

mutual

/-- The counterpart of a statement. -/
def lower (scope : Scope) : Stmt → FlagM (List Target.Stmt)
  | assign target value => pure [lowerAssign scope target value]
  | augAssign target op value => pure [.update target.lower op.lower value.lower]
  | expr value => pure [.expr value.lower]
  | returnValue value => pure [.returnValue (value.map Expr.lower)]
  | functionDef name params body => do
    let inner ← lowerBlock Scope.top body
    pure [if scope.inClass then .method name params inner else .function name params inner]
  | ifElse condition body alternate => do
    let inner ← lowerBlock scope.branch body
    let rest ← lowerAlternate scope.branch alternate
    pure [.ifElse condition.lower inner rest]
  | whileLoop condition body orelse => do
    let flag ← loopFlag body orelse
    let inner ← lowerBlock (.loopBody flag) body
    let after ← lowerBlock scope.branch orelse
    pure (completed flag (.whileTrue condition.lower) inner after)
  | forLoop target iter body orelse =>
    match loopHeader target iter with
    | .error degradation => pure [.unsupported degradation]
    | .ok header => do
      let flag ← loopFlag body orelse
      let inner ← lowerBlock (.loopBody flag) body
      let after ← lowerBlock scope.branch orelse
      pure (completed flag header inner after)
  | classDef name body => do
    let inner ← lowerBlock Scope.classBody body
    pure [.classDef name inner]
  | importModule path => pure [.importNote (dottedName path)]
  | breakLoop =>
    match scope.flag with
    | some flag => pure [.clearFlag flag, .breakLoop]
    | none => pure [.breakLoop]
  | continueLoop => pure [.continueLoop]
  | pass => pure [.empty]

/-- The counterpart of the rest of a conditional. An `else` block without
statements is left out. -/
def lowerAlternate (scope : Scope) : Alternate → FlagM Target.Alternate
  | .none => pure .none
  | .elseIf condition body alternate => do
    let inner ← lowerBlock scope body
    let rest ← lowerAlternate scope alternate
    pure (.elseIf condition.lower inner rest)
  | .otherwise body => do
    let inner ← lowerBlock scope body
    pure (if body.isEmpty then .none else .otherwise inner)

/-- The counterparts of statements. -/
def lowerBlock (scope : Scope) : List Stmt → FlagM (List Target.Stmt)
  | [] => pure []
  | s :: ss => do
    let first ← lower scope s
    let rest ← lowerBlock scope ss
    pure (first ++ rest)

end

end Stmt

end Offside
