/-!
# Offside.Feature

Features of Python that the grammar does not know. Each is recognised by one
word or one character, so that a message can name it. A registry says which of
them are reported.
-/

namespace Offside

/-- Features that are not supported. -/
inductive Feature where
  | tryStatement
  | exceptClause
  | raiseStatement
  | withStatement
  | delStatement
  | globalStatement
  | nonlocalStatement
  | fromImport
  | asAlias
  | asyncDef
  | awaitExpr
  | yieldStatement
  | lambdaExpr
  | assertStatement
  | decorator
  | dictLiteral
deriving DecidableEq, Repr

/-- What a feature is recognised by. -/
inductive Trigger where
  /-- A keyword or an identifier. -/
  | word (text : String)
  /-- A character that starts no other lexeme. -/
  | char (char : Char)
deriving DecidableEq, Repr

namespace Feature

/-- All features, in declaration order. -/
def all : List Feature :=
  [tryStatement, exceptClause, raiseStatement, withStatement, delStatement, globalStatement,
    nonlocalStatement, fromImport, asAlias, asyncDef, awaitExpr, yieldStatement, lambdaExpr,
    assertStatement, decorator, dictLiteral]

/-- What a feature is recognised by. -/
def trigger : Feature → Trigger
  | tryStatement => .word "try"
  | exceptClause => .word "except"
  | raiseStatement => .word "raise"
  | withStatement => .word "with"
  | delStatement => .word "del"
  | globalStatement => .word "global"
  | nonlocalStatement => .word "nonlocal"
  | fromImport => .word "from"
  | asAlias => .word "as"
  | asyncDef => .word "async"
  | awaitExpr => .word "await"
  | yieldStatement => .word "yield"
  | lambdaExpr => .word "lambda"
  | assertStatement => .word "assert"
  | decorator => .char '@'
  | dictLiteral => .char '\x7b'

/-- The message that names a feature. -/
def message : Feature → String
  | tryStatement => "try statement is unsupported"
  | exceptClause => "except clause is unsupported"
  | raiseStatement => "raise statement is unsupported"
  | withStatement => "with statement is unsupported"
  | delStatement => "del statement is unsupported"
  | globalStatement => "global statement is unsupported"
  | nonlocalStatement => "nonlocal statement is unsupported"
  | fromImport => "from-import is unsupported"
  | asAlias => "import aliases are unsupported"
  | asyncDef => "async is unsupported"
  | awaitExpr => "await is unsupported"
  | yieldStatement => "yield is unsupported"
  | lambdaExpr => "lambda is unsupported"
  | assertStatement => "assert statement is unsupported"
  | decorator => "decorators are unsupported"
  | dictLiteral => "dict and set literals are unsupported"

/-- The name of a feature in data. -/
def dataName : Feature → String
  | tryStatement => "TryStatement"
  | exceptClause => "ExceptClause"
  | raiseStatement => "RaiseStatement"
  | withStatement => "WithStatement"
  | delStatement => "DelStatement"
  | globalStatement => "GlobalStatement"
  | nonlocalStatement => "NonlocalStatement"
  | fromImport => "FromImport"
  | asAlias => "AsAlias"
  | asyncDef => "AsyncDef"
  | awaitExpr => "AwaitExpr"
  | yieldStatement => "YieldStatement"
  | lambdaExpr => "LambdaExpr"
  | assertStatement => "AssertStatement"
  | decorator => "Decorator"
  | dictLiteral => "DictLiteral"

/-- The feature with the given name. -/
def ofDataName? (s : String) : Option Feature := all.find? (·.dataName = s)

theorem mem_all (f : Feature) : f ∈ all := by cases f <;> decide

end Feature

/-- The features that are reported. -/
structure Registry where
  isEnabled : Feature → Bool

namespace Registry

/-- Report all features. -/
def full : Registry := ⟨fun _ => true⟩

/-- Report the given features. -/
def ofList (fs : List Feature) : Registry := ⟨fun f => f ∈ fs⟩

/-- Report a feature too. -/
def enable (r : Registry) (f : Feature) : Registry := ⟨fun g => g = f || r.isEnabled g⟩

/-- No longer report a feature. -/
def disable (r : Registry) (f : Feature) : Registry := ⟨fun g => g ≠ f && r.isEnabled g⟩

/-- The features that are reported, in declaration order. -/
def enabled (r : Registry) : List Feature := Feature.all.filter r.isEnabled

/-- The reported feature with the given trigger. -/
def lookup (r : Registry) (trigger : Trigger) : Option Feature :=
  r.enabled.find? (·.trigger = trigger)

end Registry

end Offside
