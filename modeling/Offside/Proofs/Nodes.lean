import Offside.Analysis.Literals

/-!
# Offside.Proofs.Nodes

The **nodes** of a program: the expressions in it, at any depth and also in the
placeholders of f-strings, in the order of the source and each before its parts.
The search for operations that have no meaning goes through all of them and ends
at the first one that is at fault (`Program.checkLiterals_eq_firstFault`). Which
operations are at fault can be seen from their operands alone (`Expr.Offends`), so
the search **refuses exactly the programs in which one offends, and reports the
first of those** (`Program.checkLiterals_finds_first`).
-/

namespace Offside

/-! ### Nodes -/

namespace Expr

mutual

/-- The nodes of an expression. -/
def nodes : Expr → List Expr
  | .ident name => [.ident name]
  | .literal value => [.literal value]
  | .fstring quasis expressions => .fstring quasis expressions :: nodesAll expressions
  | .binary left op right line => .binary left op right line :: (nodes left ++ nodes right)
  | .unary op operand => .unary op operand :: nodes operand
  | .attr value name => .attr value name :: nodes value
  | .call callee args => .call callee args :: (nodes callee ++ nodesAll args)
  | .index target position => .index target position :: (nodes target ++ nodes position)
  | .list items => .list items :: nodesAll items
  | .group inner => .group inner :: nodes inner

/-- The nodes of expressions. -/
def nodesAll : List Expr → List Expr
  | [] => []
  | e :: es => nodes e ++ nodesAll es

end

end Expr

namespace Stmt

mutual

/-- The nodes of a statement, those of its blocks included. -/
def nodes : Stmt → List Expr
  | .assign target value | .augAssign target _ value => target.nodes ++ value.nodes
  | .expr value | .returnValue (some value) => value.nodes
  | .functionDef _ _ body | .classDef _ body => blockNodes body
  | .ifElse condition body alternate =>
    condition.nodes ++ (blockNodes body ++ alternateNodes alternate)
  | .whileLoop condition body orelse => condition.nodes ++ (blockNodes body ++ blockNodes orelse)
  | .forLoop target iter body orelse =>
    target.nodes ++ (iter.nodes ++ (blockNodes body ++ blockNodes orelse))
  | .returnValue none | .importModule _ | .breakLoop | .continueLoop | .pass => []

/-- The nodes of the rest of a conditional. -/
def alternateNodes : Alternate → List Expr
  | .none => []
  | .elseIf condition body alternate =>
    condition.nodes ++ (blockNodes body ++ alternateNodes alternate)
  | .otherwise body => blockNodes body

/-- The nodes of statements. -/
def blockNodes : List Stmt → List Expr
  | [] => []
  | s :: ss => nodes s ++ blockNodes ss

end

end Stmt

/-- The nodes of a program. -/
def Program.nodes (p : Program) : List Expr := Stmt.blockNodes p.statements

/-! ### Faults of nodes

The check goes through the tree. Listing the nodes first and then looking for a fault
comes to the same.
-/

namespace Expr

/-- The fault of a node, apart from those of its parts. -/
def ownFault? : Expr → Option Failure
  | .binary left op right line => fault? left op right line
  | _ => none

/-- The first fault of a node. -/
def firstFault (es : List Expr) : Except Failure Unit :=
  (es.findSome? ownFault?).elim (.ok ()) .error

/-- The first fault of two lists is that of the first, or else that of the second. -/
theorem firstFault_append (es es' : List Expr) :
    firstFault (es ++ es') = (do firstFault es; firstFault es') := by
  rw [firstFault, firstFault, firstFault, List.findSome?_append]
  cases es.findSome? ownFault? <;> rfl

theorem firstFault_cons (e : Expr) (es : List Expr) :
    firstFault (e :: es) = e.ownFault?.elim (firstFault es) .error := by
  rw [firstFault, List.findSome?_cons]
  cases e.ownFault? <;> rfl

/-- The fault of an operation is put on its line. -/
theorem line?_of_fault? {left right : Expr} {op : BinaryOp} {line : Nat} {failure : Failure}
    (h : fault? left op right line = some failure) : failure.line? = some line := by
  unfold fault? at h
  split at h
  · split at h
    · obtain rfl := Option.some.inj h
      rfl
    · cases h
  · split at h
    · obtain rfl := Option.some.inj h
      rfl
    · cases h
  · split at h
    · obtain rfl := Option.some.inj h
      rfl
    · cases h
  · cases h

mutual

/-- **The check finds the first fault among the nodes**, from the outside in and
from left to right. -/
theorem checkLiterals_eq_firstFault (e : Expr) : e.checkLiterals = firstFault e.nodes := by
  match e with
  | .ident _ | .literal _ => rfl
  | .fstring _ expressions =>
      rw [checkLiterals, nodes, firstFault_cons, checkAllLiterals_eq_firstFault expressions]
      rfl
  | .binary left op right line =>
      rw [checkLiterals, nodes, firstFault_cons, firstFault_append,
        checkLiterals_eq_firstFault left, checkLiterals_eq_firstFault right, ownFault?]
      cases fault? left op right line <;> rfl
  | .unary _ operand =>
      rw [checkLiterals, nodes, firstFault_cons, checkLiterals_eq_firstFault operand]
      rfl
  | .attr value _ =>
      rw [checkLiterals, nodes, firstFault_cons, checkLiterals_eq_firstFault value]
      rfl
  | .call callee args =>
      rw [checkLiterals, nodes, firstFault_cons, firstFault_append,
        checkLiterals_eq_firstFault callee, checkAllLiterals_eq_firstFault args]
      rfl
  | .index target position =>
      rw [checkLiterals, nodes, firstFault_cons, firstFault_append,
        checkLiterals_eq_firstFault target, checkLiterals_eq_firstFault position]
      rfl
  | .list items =>
      rw [checkLiterals, nodes, firstFault_cons, checkAllLiterals_eq_firstFault items]
      rfl
  | .group inner =>
      rw [checkLiterals, nodes, firstFault_cons, checkLiterals_eq_firstFault inner]
      rfl

theorem checkAllLiterals_eq_firstFault (es : List Expr) :
    checkAllLiterals es = firstFault (nodesAll es) := by
  match es with
  | [] => rfl
  | e :: es =>
      rw [checkAllLiterals, nodesAll, firstFault_append, checkLiterals_eq_firstFault e,
        checkAllLiterals_eq_firstFault es]

end

end Expr

namespace Stmt

open Offside.Expr (firstFault firstFault_append)

mutual

theorem checkLiterals_eq_firstFault (s : Stmt) : s.checkLiterals = firstFault s.nodes := by
  match s with
  | .assign target value | .augAssign target _ value =>
      rw [checkLiterals, nodes, firstFault_append, target.checkLiterals_eq_firstFault,
        value.checkLiterals_eq_firstFault]
  | .expr value | .returnValue (some value) =>
      rw [checkLiterals, nodes, value.checkLiterals_eq_firstFault]
  | .functionDef _ _ body | .classDef _ body =>
      rw [checkLiterals, nodes, checkBlockLiterals_eq_firstFault body]
  | .ifElse condition body alternate =>
      rw [checkLiterals, nodes, firstFault_append, firstFault_append,
        condition.checkLiterals_eq_firstFault, checkBlockLiterals_eq_firstFault body,
        checkAlternateLiterals_eq_firstFault alternate]
  | .whileLoop condition body orelse =>
      rw [checkLiterals, nodes, firstFault_append, firstFault_append,
        condition.checkLiterals_eq_firstFault, checkBlockLiterals_eq_firstFault body,
        checkBlockLiterals_eq_firstFault orelse]
  | .forLoop target iter body orelse =>
      rw [checkLiterals, nodes, firstFault_append, firstFault_append, firstFault_append,
        target.checkLiterals_eq_firstFault, iter.checkLiterals_eq_firstFault,
        checkBlockLiterals_eq_firstFault body, checkBlockLiterals_eq_firstFault orelse]
  | .returnValue none | .importModule _ | .breakLoop | .continueLoop | .pass => rfl

theorem checkAlternateLiterals_eq_firstFault (a : Alternate) :
    checkAlternateLiterals a = firstFault (alternateNodes a) := by
  match a with
  | .none => rfl
  | .elseIf condition body alternate =>
      rw [checkAlternateLiterals, alternateNodes, firstFault_append, firstFault_append,
        condition.checkLiterals_eq_firstFault, checkBlockLiterals_eq_firstFault body,
        checkAlternateLiterals_eq_firstFault alternate]
  | .otherwise body =>
      rw [checkAlternateLiterals, alternateNodes, checkBlockLiterals_eq_firstFault body]

theorem checkBlockLiterals_eq_firstFault (ss : List Stmt) :
    checkBlockLiterals ss = firstFault (blockNodes ss) := by
  match ss with
  | [] => rfl
  | s :: ss =>
      rw [checkBlockLiterals, blockNodes, firstFault_append, checkLiterals_eq_firstFault s,
        checkBlockLiterals_eq_firstFault ss]

end

end Stmt

namespace Program

theorem checkLiterals_eq_firstFault (p : Program) : p.checkLiterals = Expr.firstFault p.nodes :=
  Stmt.checkBlockLiterals_eq_firstFault p.statements

/-- A program that is refused has an operation that is at fault. -/
theorem exists_binary_of_checkLiterals {p : Program} {failure : Failure}
    (h : p.checkLiterals = .error failure) :
    ∃ left op right line, Expr.binary left op right line ∈ p.nodes ∧
      Expr.fault? left op right line = some failure := by
  rw [checkLiterals_eq_firstFault, Expr.firstFault] at h
  cases hfound : p.nodes.findSome? Expr.ownFault? with
  | none =>
      rw [hfound] at h
      cases h
  | some found =>
      rw [hfound] at h
      obtain rfl := Except.error.inj h
      obtain ⟨e, he, hfault⟩ := List.exists_of_findSome?_eq_some hfound
      cases e with
      | binary left op right line => exact ⟨left, op, right, line, he, hfault⟩
      | _ => cases hfault

end Program

/-! ### Operations that offend -/

namespace Expr

/-- An operation whose operands are literals that it cannot be applied to, and the
failure that says so. An operand in parentheses is no literal. -/
inductive Offends : Expr → Failure → Prop where
  /-- A division by the literal zero, of either sign. -/
  | division {left : Expr} {op : BinaryOp} {negative : Bool} {exponent : Int} {line : Nat} :
      op = .div ∨ op = .floorDiv →
      Offends (.binary left op (.literal (.number (.finite negative 0 exponent))) line)
        (.divisionByZero line)
  /-- A number literal added to a string literal. -/
  | numberToString {text : String} {value : Binary64} {line : Nat} :
      Offends (.binary (.literal (.string text)) .add (.literal (.number value)) line)
        (.typeMismatch line .mixedAddition)
  /-- A string literal added to a number literal. -/
  | stringToNumber {text : String} {value : Binary64} {line : Nat} :
      Offends (.binary (.literal (.number value)) .add (.literal (.string text)) line)
        (.typeMismatch line .mixedAddition)

/-- Zero is written with any sign and any exponent. -/
theorem isZeroLiteral_iff {e : Expr} : e.isZeroLiteral = true ↔
    ∃ negative exponent, e = .literal (.number (.finite negative 0 exponent)) := by
  constructor
  · intro h
    unfold isZeroLiteral at h
    split at h
    · unfold Binary64.isZero at h
      split at h
      · exact ⟨_, _, rfl⟩
      · cases h
    · cases h
  · rintro ⟨negative, exponent, rfl⟩
    rfl

theorem exists_string_of_literalKind? {e : Expr} (h : e.literalKind? = some .string) :
    ∃ text, e = .literal (.string text) := by
  cases e with
  | literal value =>
      cases value with
      | string text => exact ⟨text, rfl⟩
      | _ => cases h
  | _ => cases h

theorem exists_number_of_literalKind? {e : Expr} (h : e.literalKind? = some .number) :
    ∃ value, e = .literal (.number value) := by
  cases e with
  | literal value =>
      cases value with
      | number value => exact ⟨value, rfl⟩
      | _ => cases h
  | _ => cases h

/-- A string and a number, in either order. -/
theorem areStringAndNumber_iff {left right : Expr} : areStringAndNumber left right = true ↔
    ∃ text value,
      (left = .literal (.string text) ∧ right = .literal (.number value)) ∨
        (left = .literal (.number value) ∧ right = .literal (.string text)) := by
  constructor
  · intro h
    unfold areStringAndNumber at h
    split at h
    · rename_i hleft hright
      obtain ⟨text, rfl⟩ := exists_string_of_literalKind? hleft
      obtain ⟨value, rfl⟩ := exists_number_of_literalKind? hright
      exact ⟨text, value, .inl ⟨rfl, rfl⟩⟩
    · rename_i hleft hright
      obtain ⟨value, rfl⟩ := exists_number_of_literalKind? hleft
      obtain ⟨text, rfl⟩ := exists_string_of_literalKind? hright
      exact ⟨text, value, .inr ⟨rfl, rfl⟩⟩
    · cases h
  · rintro ⟨text, value, ⟨rfl, rfl⟩ | ⟨rfl, rfl⟩⟩
    · rfl
    · rfl

/-- A fault that the check finds in an operation can be seen from its operands. -/
theorem offends_of_fault? {left right : Expr} {op : BinaryOp} {line : Nat} {failure : Failure}
    (h : fault? left op right line = some failure) :
    (Expr.binary left op right line).Offends failure := by
  have hdivision (hop : op = .div ∨ op = .floorDiv)
      (hfault : (if right.isZeroLiteral then some (Failure.divisionByZero line) else none) =
        some failure) : (Expr.binary left op right line).Offends failure := by
    split at hfault
    · rename_i hzero
      obtain ⟨negative, exponent, rfl⟩ := isZeroLiteral_iff.1 hzero
      obtain rfl := Option.some.inj hfault
      exact .division hop
    · cases hfault
  unfold fault? at h
  split at h
  · exact hdivision (.inl rfl) h
  · exact hdivision (.inr rfl) h
  · split at h
    · rename_i hmixed
      obtain rfl := Option.some.inj h
      obtain ⟨text, value, ⟨rfl, rfl⟩ | ⟨rfl, rfl⟩⟩ := areStringAndNumber_iff.1 hmixed
      · exact .numberToString
      · exact .stringToNumber
    · cases h
  · cases h

/-- The fault of a node is seen from its operands. -/
theorem ownFault?_eq_some_iff {e : Expr} {failure : Failure} :
    e.ownFault? = some failure ↔ e.Offends failure := by
  constructor
  · intro h
    cases e with
    | binary left op right line => exact offends_of_fault? h
    | _ => cases h
  · intro h
    cases h with
    | division hop =>
        rcases hop with rfl | rfl
        · rfl
        · rfl
    | numberToString | stringToNumber => rfl

theorem ownFault?_eq_none_iff {e : Expr} : e.ownFault? = none ↔ ∀ failure, ¬ e.Offends failure := by
  rw [Option.eq_none_iff_forall_ne_some]
  exact forall_congr' fun failure => not_congr ownFault?_eq_some_iff

theorem firstFault_eq_ok_iff {es : List Expr} :
    firstFault es = .ok () ↔ es.findSome? ownFault? = none := by
  rw [firstFault]
  cases es.findSome? ownFault? with
  | none => exact ⟨fun _ => rfl, fun _ => rfl⟩
  | some failure => exact ⟨fun h => (by cases h), fun h => (by cases h)⟩

/-- A list has a fault exactly if one of its nodes has it and those before have none. -/
theorem firstFault_eq_error_iff {es : List Expr} {failure : Failure} :
    firstFault es = .error failure ↔ es.findSome? ownFault? = some failure := by
  rw [firstFault]
  cases es.findSome? ownFault? with
  | none => exact ⟨fun h => (by cases h), fun h => (by cases h)⟩
  | some found => exact ⟨fun h => congrArg some (Except.error.inj h), fun h => by rw [h]; rfl⟩

end Expr

/-- **The check of literals.** A program passes exactly if none of its nodes offends.
It is refused with a failure exactly if this is the one of the first node that
offends, nodes being taken in the order of the source and each before its parts. -/
theorem Program.checkLiterals_finds_first (p : Program) :
    (p.checkLiterals = .ok () ↔ ∀ e ∈ p.nodes, ∀ failure, ¬ e.Offends failure) ∧
    ∀ failure, p.checkLiterals = .error failure ↔
      ∃ before e after, p.nodes = before ++ e :: after ∧
        (∀ e' ∈ before, ∀ failure', ¬ e'.Offends failure') ∧ e.Offends failure := by
  rw [checkLiterals_eq_firstFault]
  constructor
  · rw [Expr.firstFault_eq_ok_iff, List.findSome?_eq_none_iff]
    exact forall₂_congr fun e _ => Expr.ownFault?_eq_none_iff
  · intro failure
    rw [Expr.firstFault_eq_error_iff, List.findSome?_eq_some_iff]
    constructor
    · rintro ⟨before, e, after, hnodes, hfault, hbefore⟩
      refine ⟨before, e, after, hnodes, fun e' he' => ?_, Expr.ownFault?_eq_some_iff.1 hfault⟩
      exact Expr.ownFault?_eq_none_iff.1 (hbefore e' he')
    · rintro ⟨before, e, after, hnodes, hbefore, hoffends⟩
      refine ⟨before, e, after, hnodes, Expr.ownFault?_eq_some_iff.2 hoffends, fun e' he' => ?_⟩
      exact Expr.ownFault?_eq_none_iff.2 (hbefore e' he')

end Offside
