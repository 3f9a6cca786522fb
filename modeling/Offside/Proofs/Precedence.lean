import Offside.Ast.Equality
import Offside.Grammar.Cursor
import Offside.Proofs.Placeholders
import Offside.Proofs.Source

/-!
# Offside.Proofs.Precedence

Which operand belongs to which operator. In an expression that is read,
**operands stand where the powers of the operators put them** (`isGrouped`), at
every depth and also in the placeholders of f-strings; the expression itself has
the power that was asked for, and no operator of that power is left behind it.

All of it is said by the rules of the grammar: an operand that binds looser than
its place demands has no derivation there (`Forms.isGrouped`).
-/

namespace Offside

namespace Expr

mutual

/-- The left operand of an operator binds at least as tightly as the operator and
the right one more tightly, no operand of a sign or of `not` is a binary
operation, and only atoms and chains of attributes, calls and elements are taken
further by one of these; all this everywhere in the expression. -/
def isGrouped : Expr → Bool
  | .ident _ | .literal _ => true
  | .fstring _ expressions => areGrouped expressions
  | .binary left op right _ =>
    left.hasPower op.precedence && right.hasPower (op.precedence + 1) &&
      (isGrouped left && isGrouped right)
  | .unary _ operand => !operand.isBinary && isGrouped operand
  | .attr value _ => value.isPrimary && isGrouped value
  | .call callee args => callee.isPrimary && isGrouped callee && areGrouped args
  | .index target position => target.isPrimary && isGrouped target && isGrouped position
  | .list items => areGrouped items
  | .group inner => isGrouped inner

/-- Operands stand where they belong in all of the expressions. -/
def areGrouped : List Expr → Bool
  | [] => true
  | e :: es => isGrouped e && areGrouped es

end

theorem areGrouped_iff {es : List Expr} : areGrouped es = true ↔ ∀ e ∈ es, e.isGrouped = true := by
  induction es with
  | nil => simp [areGrouped]
  | cons e es ih => simp [areGrouped, ih]

theorem isBinary_of_isPrimary {e : Expr} (h : e.isPrimary = true) : e.isBinary = false := by
  cases e with
  | binary => cases h
  | _ => rfl

theorem hasPower_of_isBinary {e : Expr} (h : e.isBinary = false) (m : Nat) :
    e.hasPower m = true := by
  cases e with
  | binary => cases h
  | _ => rfl

end Expr

namespace Grammar

/-- The expressions of a phrase are grouped, and one of them by itself has the
form that its category asks for. -/
def Phrase.IsGrouped : Phrase → Prop
  | .expression m e => e.isGrouped = true ∧ e.hasPower m = true
  | .unary e => e.isGrouped = true ∧ e.isBinary = false
  | .primary e | .atom e => e.isGrouped = true ∧ e.isPrimary = true
  | .arguments es | .moreArguments es | .items es | .moreItems es => Expr.areGrouped es = true

/-- Tokens form nothing in which an operand binds too loosely for its place. -/
theorem Forms.isGrouped {r : Reader} {ph : Phrase} {ts : List Token}
    (hread : FString.Gives (fun e => e.isGrouped = true) r) (h : Forms r ph ts) :
    ph.IsGrouped := by
  induction h with
  | number | string | ident | constant => exact ⟨rfl, rfl⟩
  | fstring _ htext => exact ⟨Expr.areGrouped_iff.2 (hread _ _ _ _ htext).2, rfl⟩
  | group _ _ _ ih => exact ⟨ih.1, rfl⟩
  | list _ _ ih => exact ⟨ih, rfl⟩
  | ofAtom _ ih => exact ih
  | attr _ _ _ ih => exact ⟨by simp [Expr.isGrouped, ih.1, ih.2], rfl⟩
  | call _ _ _ ihbase ihargs =>
      have hargs : Expr.areGrouped _ = true := ihargs
      exact ⟨by simp [Expr.isGrouped, ihbase.1, ihbase.2, hargs], rfl⟩
  | index _ _ _ _ ihbase ihposition =>
      exact ⟨by simp [Expr.isGrouped, ihbase.1, ihbase.2, ihposition.1], rfl⟩
  | ofPrimary _ ih => exact ⟨ih.1, Expr.isBinary_of_isPrimary ih.2⟩
  | unary _ _ ih => exact ⟨by simp [Expr.isGrouped, ih.1, ih.2], rfl⟩
  | ofUnary _ ih => exact ⟨ih.1, Expr.hasPower_of_isBinary ih.2 _⟩
  | binary hpower _ _ _ ihleft ihright =>
      exact ⟨by simp [Expr.isGrouped, ihleft.1, ihleft.2, ihright.1, ihright.2],
        decide_eq_true hpower⟩
  | noArguments | endArguments | noItems | endItems => rfl
  | argument _ _ ihe ihes | nextArgument _ _ _ ihe ihes | item _ _ ihe ihes =>
      exact Bool.and_eq_true_iff.2 ⟨ihe.1, ihes⟩
  | nextItems _ _ ih => exact ih

theorem gives_isGrouped :
    FString.Gives (fun e => e.isGrouped = true) Program.fstringReader :=
  Program.gives_fstringReader fun _ _ _ _ hread h => (h.isGrouped hread).1

namespace Cursor

theorem exists_forms_of_expression {c after : Cursor} {m : Nat} {e : Expr}
    (h : c.expression m = (.ok e, after)) :
    ∃ used, c.rest = used ++ after.rest ∧
      Forms Program.fstringReader (.expression m e) used ∧ Ends m after.rest := by
  obtain ⟨hresult, rfl⟩ := Prod.mk.inj h
  have hrun : (Grammar.expression c.context m c.rest).run = (.ok e, _) := Prod.ext hresult rfl
  exact expression_sound hrun

/-- **Operators take their operands by their powers**, and those of the same power
to the left. From any place in any tokens, an expression that is read is grouped
throughout, binds at least as tightly as was asked for, and is not followed by an
operator that it should have taken. -/
theorem expression_isGrouped {c after : Cursor} {m : Nat} {e : Expr}
    (h : c.expression m = (.ok e, after)) :
    e.isGrouped = true ∧ e.hasPower m = true ∧
      ∀ t ∈ after.rest.head?, ∀ op, binaryOp? t = some op → op.precedence < m := by
  obtain ⟨used, -, hform, hends⟩ := exists_forms_of_expression h
  obtain ⟨hgrouped, hpower⟩ := hform.isGrouped gives_isGrouped
  exact ⟨hgrouped, hpower, hends.power⟩

/-- Operators of four powers and a sign, an f-string among the operands, and a
comparison that is not asked for. -/
def mixedOperators : Cursor :=
  .ofTokens (Token.ofExpression "a - b * -c ** 2 - f'\x7bx - y * z\x7d' < d".toList 1)

/-- What is read from `mixedOperators` if comparisons are left out. -/
def mixedDifference : Expr :=
  .binary
    (.binary (.ident "a") .sub
      (.binary (.ident "b") .mul
        (.binary (.unary .neg (.ident "c")) .pow
          (.literal (.number (Binary64.ofDecimal false ⟨2, 0⟩))) 1) 1) 1)
    .sub
    (.fstring ["", ""] [.binary (.ident "x") .sub (.binary (.ident "y") .mul (.ident "z") 1) 1]) 1

theorem expression_isGrouped_mixedOperators :
    ∃ after : Cursor,
      mixedOperators.expression 8 = (.ok mixedDifference, after) ∧
      after.rest = [⟨.operator, "<", 1⟩, ⟨.identifier, "d", 1⟩] ∧
      mixedDifference.isGrouped = true ∧ mixedDifference.hasPower 8 = true ∧
      ∀ t ∈ after.rest.head?, ∀ op, binaryOp? t = some op → op.precedence < 8 := by
  have hresult : (mixedOperators.expression 8).1 = .ok mixedDifference :=
    eq_ok_of_toOption (by decide +kernel)
  have hread : mixedOperators.expression 8 =
      (.ok mixedDifference, (mixedOperators.expression 8).2) := Prod.ext hresult rfl
  exact ⟨_, hread, by decide +kernel, expression_isGrouped hread⟩

end Cursor

end Grammar

end Offside
