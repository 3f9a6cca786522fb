import Offside.Lowering.Stmt

/-!
# Offside.Proofs.Names

The **variables of a program**: the names that it reads, binds or defines, at
any depth and also inside the placeholders of f-strings. The name of an
attribute is not one of them, since it names no variable.

The flags of the generated code are variables too. `IsFlagName` says which
names they can have; that no two flags share a name rests on
`flagName_injective`.
-/

namespace Offside

/-! ### Variables of expressions and statements -/

mutual

/-- The variables of an expression. -/
def Expr.names : Expr → List String
  | .ident name => [name]
  | .literal _ => []
  | .fstring _ expressions => namesAll expressions
  | .binary left _ right _ => names left ++ names right
  | .unary _ operand => names operand
  | .attr value _ => names value
  | .call callee args => names callee ++ namesAll args
  | .index target position => names target ++ names position
  | .list items => namesAll items
  | .group inner => names inner

/-- The variables of expressions. -/
def Expr.namesAll : List Expr → List String
  | [] => []
  | e :: es => names e ++ namesAll es

end

mutual

/-- The variables of a statement, those of its blocks included. An import binds
the first part of the module's name. -/
def Stmt.names : Stmt → List String
  | .assign target value | .augAssign target _ value => target.names ++ value.names
  | .expr value | .returnValue (some value) => value.names
  | .returnValue none => []
  | .functionDef name params body => name :: (params ++ blockNames body)
  | .ifElse condition body alternate =>
    condition.names ++ blockNames body ++ alternateNames alternate
  | .whileLoop condition body orelse => condition.names ++ blockNames body ++ blockNames orelse
  | .forLoop target iter body orelse =>
    target.names ++ iter.names ++ blockNames body ++ blockNames orelse
  | .classDef name body => name :: blockNames body
  | .importModule path => path.take 1
  | .breakLoop | .continueLoop | .pass => []

/-- The variables of the rest of a conditional. -/
def Stmt.alternateNames : Alternate → List String
  | .none => []
  | .elseIf condition body alternate =>
    condition.names ++ blockNames body ++ alternateNames alternate
  | .otherwise body => blockNames body

/-- The variables of statements. -/
def Stmt.blockNames : List Stmt → List String
  | [] => []
  | s :: ss => names s ++ blockNames ss

end

/-! ### Names of flags -/

/-- A name that a flag can have. -/
def IsFlagName (name : String) : Prop := ∃ n, name = flagName n

theorem flagName_injective {m n : Nat} (h : flagName m = flagName n) : m = n := by
  have hrepr : m.repr = n.repr := (String.append_right_inj _).1 h
  have hdigits : Nat.toDigits 10 m = Nat.toDigits 10 n := by
    rw [← Nat.toList_repr, ← Nat.toList_repr, hrepr]
  have hm := Nat.ofDigitChars_toDigits (b := 10) (n := m) (by omega) (by omega)
  have hn := Nat.ofDigitChars_toDigits (b := 10) (n := n) (by omega) (by omega)
  rw [← hm, hdigits, hn]

/-- A flag starts with an underscore. -/
theorem not_isFlagName {name : String} (h : name.toList.head? ≠ some '_') :
    ¬ IsFlagName name := by
  rintro ⟨n, rfl⟩
  have happend : (flagName n).toList = "_loop_completed_".toList ++ (toString n).toList :=
    String.toList_append
  rw [happend] at h
  exact h rfl

end Offside
