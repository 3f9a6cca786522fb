import Offside.Proofs.Grouping
import Offside.Proofs.JavaScript.Template

/-!
# Offside.Proofs.Templates

The template literals of f-strings. Main statement: `Expr.read?_fstring`. An f-string
becomes a literal with **its text pieces and its placeholders, and no others**,
whatever the characters of the pieces. That the pieces are found does not depend on
the code between them; that the code is found depends on the names in it, and on no
attribute being taken of a number without a point.
-/

namespace Offside.Expr

open Offside.Target.Template (IsOperand)

/-- The names in a node are made like names of JavaScript, and an f-string has a text
piece before, between and after its expressions. -/
def isProper : Expr → Bool
  | .ident name | .attr _ name => Target.Lexeme.isName name.toList
  | .fstring quasis expressions => quasis.length = expressions.length + 1
  | _ => true

/-- No variable is a reserved word of JavaScript, and what has an attribute does not end
in a number without a point. -/
def isFree : Expr → Bool
  | .ident name => !Target.reservedWords.contains name
  | .attr value _ => !value.lower.endsInNumber
  | _ => true

theorem isOperand_ident {name : String} (hname : (ident name).isProper = true)
    (hfree : (ident name).isFree = true) : IsOperand (.name name) := by
  have hnot : Target.reservedWords.contains name = false := by
    simpa only [isFree, Bool.not_eq_true'] using hfree
  exact .word hname (by rw [Target.named?_of_not_reserved hnot]; rfl) rfl

theorem isOperand_literal (value : Literal) : IsOperand value.lower := by
  have hword {text : String} (htext : text ∈ ["true", "false", "null"]) {t : Target.Expr}
      (hrender : t.render = text) : IsOperand t := by
    have hall : ∀ word ∈ ["true", "false", "null"], Target.Lexeme.isName word.toList = true ∧
        (Target.named? word).isSome = true := by decide
    exact .word (hall text htext).1 (hall text htext).2 hrender
  cases value with
  | number value => exact .number value
  | string value => exact .string value
  | boolean value =>
      cases value with
      | true => exact hword (by decide : "true" ∈ ["true", "false", "null"]) rfl
      | false => exact hword (by decide : "false" ∈ ["true", "false", "null"]) rfl
  | null => exact hword (by decide : "null" ∈ ["true", "false", "null"]) rfl

theorem isOperand_paren_if {t : Target.Expr} (h : IsOperand t) (p : Prop) [Decidable p] :
    IsOperand (if p then t.paren else t) := by
  split
  · exact h.paren
  · exact h

/-- Parentheses stand between two signs. -/
theorem isOperand_lowerSign {t : Target.Expr} (h : IsOperand t) (op : Target.UnaryOp) :
    IsOperand (lowerSign op t) := by
  rw [lowerSign]
  split
  · have hparen : t.paren.startsWithSign = false := by
      simp [Target.Expr.startsWithSign, Target.Expr.render]
    exact h.paren.unary (.inr hparen)
  · rename_i hsign
    exact h.unary (.inr (by simpa using hsign))

/-- The counterparts of built-in functions are operands. One of them has a point in its
name. -/
theorem isOperand_lowerCallee {t : Target.Expr} (h : IsOperand t) : IsOperand (lowerCallee t) := by
  have hconsole : IsOperand (.name "console") :=
    .word (by decide : Target.Lexeme.isName "console".toList = true) (by decide) rfl
  have hlog : IsOperand (.name "console.log") :=
    (hconsole.member rfl (by decide : Target.Lexeme.isName "log".toList = true)).congr rfl rfl
  have hall : ∀ p ∈ intrinsics, p.2 = "console.log" ∨ Target.Lexeme.isName p.2.toList = true ∧
      (Target.named? p.2).isSome = true := by decide
  cases t with
  | name text =>
      rw [lowerCallee]
      cases hlookup : intrinsics.lookup text with
      | none => exact h
      | some name =>
          rcases hall (text, name) (mem_of_lookup_eq_some hlookup) with hdotted | ⟨hname, hfree⟩
          · rw [Option.getD_some, show name = "console.log" from hdotted]
            exact hlog
          · exact .word hname hfree rfl
  | _ => exact h

mutual

/-- The code of an expression is passed over as an operand. -/
theorem isOperand_lower : (e : Expr) → e.everywhere isProper = true → e.everywhere isFree = true →
    IsOperand e.lower
  | .ident name, hproper, hfree => isOperand_ident hproper hfree
  | .literal value, _, _ => isOperand_literal value
  | .fstring quasis es, hproper, hfree => by
      obtain ⟨hcount, hes⟩ := Bool.and_eq_true_iff.1 hproper
      refine .template (isOperand_lowerAll es hes (Bool.and_eq_true_iff.1 hfree).2) ?_
      rw [length_lowerAll]
      exact of_decide_eq_true hcount
  | .binary left op right line, hproper, hfree => by
      simp only [everywhere, Bool.and_eq_true] at hproper hfree
      exact (isOperand_paren_if (isOperand_lower left hproper.2.1 hfree.2.1)
        (op = .pow ∧ left.needsParensAsBase = true)).binary op.lower
          (isOperand_lower right hproper.2.2 hfree.2.2)
  | .unary op operand, hproper, hfree => by
      have hoperand := isOperand_lower operand (Bool.and_eq_true_iff.1 hproper).2
        (Bool.and_eq_true_iff.1 hfree).2
      cases op with
      | not => exact hoperand.unary (.inl rfl)
      | neg => exact isOperand_lowerSign hoperand .neg
      | pos => exact isOperand_lowerSign hoperand .pos
  | .attr value name, hproper, hfree => by
      obtain ⟨hname, hvalue⟩ := Bool.and_eq_true_iff.1 hproper
      obtain ⟨hnumber, hvalue'⟩ := Bool.and_eq_true_iff.1 hfree
      have hends : value.lower.endsInNumber = false := by simpa [isFree] using hnumber
      exact (isOperand_lower value hvalue hvalue').member hends hname
  | .call callee args, hproper, hfree => by
      simp only [everywhere, Bool.and_eq_true] at hproper hfree
      exact (isOperand_lowerCallee (isOperand_lower callee hproper.2.1 hfree.2.1)).call
        (isOperand_lowerAll args hproper.2.2 hfree.2.2)
  | .index target position, hproper, hfree => by
      simp only [everywhere, Bool.and_eq_true] at hproper hfree
      exact (isOperand_lower target hproper.2.1 hfree.2.1).index
        (isOperand_lower position hproper.2.2 hfree.2.2)
  | .list items, hproper, hfree =>
      .array (isOperand_lowerAll items (Bool.and_eq_true_iff.1 hproper).2
        (Bool.and_eq_true_iff.1 hfree).2)
  | .group inner, hproper, hfree =>
      .paren (isOperand_lower inner (Bool.and_eq_true_iff.1 hproper).2
        (Bool.and_eq_true_iff.1 hfree).2)

theorem isOperand_lowerAll : (es : List Expr) → everywhereAll isProper es = true →
    everywhereAll isFree es = true → ∀ t ∈ lowerAll es, IsOperand t
  | [], _, _ => by simp [lowerAll]
  | e :: es, hproper, hfree => by
      obtain ⟨he, hes⟩ := Bool.and_eq_true_iff.1 hproper
      obtain ⟨he', hes'⟩ := Bool.and_eq_true_iff.1 hfree
      exact List.forall_mem_cons.2 ⟨isOperand_lower e he he', isOperand_lowerAll es hes hes'⟩

end

mutual

/-- What is parsed has proper nodes. -/
theorem everywhere_isProper : (e : Expr) → e.IsLexical → e.everywhere isProper = true
  | .ident _, h => isName_of_isWord h
  | .literal _, _ => rfl
  | .fstring _ es, h =>
      Bool.and_eq_true_iff.2 ⟨decide_eq_true h.1, everywhereAll_isProper es h.2⟩
  | .binary left _ right _, h =>
      Bool.and_eq_true_iff.2 ⟨rfl, Bool.and_eq_true_iff.2
        ⟨everywhere_isProper left h.1, everywhere_isProper right h.2⟩⟩
  | .unary _ operand, h => everywhere_isProper operand h
  | .attr value _, h =>
      Bool.and_eq_true_iff.2 ⟨isName_of_isWord h.1, everywhere_isProper value h.2⟩
  | .call callee args, h =>
      Bool.and_eq_true_iff.2 ⟨rfl, Bool.and_eq_true_iff.2
        ⟨everywhere_isProper callee h.1, everywhereAll_isProper args h.2⟩⟩
  | .index target position, h =>
      Bool.and_eq_true_iff.2 ⟨rfl, Bool.and_eq_true_iff.2
        ⟨everywhere_isProper target h.1, everywhere_isProper position h.2⟩⟩
  | .list items, h => everywhereAll_isProper items h
  | .group inner, h => everywhere_isProper inner h

theorem everywhereAll_isProper : (es : List Expr) → AreLexical es →
    everywhereAll isProper es = true
  | [], _ => rfl
  | e :: es, h =>
      Bool.and_eq_true_iff.2 ⟨everywhere_isProper e h.1, everywhereAll_isProper es h.2⟩

end

theorem toList_toCode_fstring (quasis : List String) (es : List Expr) (rest : List Char) :
    (fstring quasis es).toCode.toList ++ rest =
      '\x60' :: ((Target.templateBody quasis (es.map toCode)).toList ++ '\x60' :: rest) := by
  simp [toCode, lower, Target.Expr.render, renderAll_lowerAll]

/-- **The template literal of an f-string.** It has the text pieces of the f-string,
whatever characters they have, with the code of the expressions between them, whatever
that code is, and it ends where the code of the f-string ends. The lexical rules alone
find this code as well, if the names in the expressions are made like names of
JavaScript, which they are in every f-string that is read; if none of the variables is
a reserved word; and if no attribute is taken of a number without a point. -/
theorem read?_fstring :
    (∀ quasis es, quasis.length = es.length + 1 → ∀ rest,
      Target.Template.readAround? (es.map toCode) ((fstring quasis es).toCode.toList ++ rest) =
        some (quasis, rest)) ∧
    (∀ quasis es, (fstring quasis es).everywhere isProper = true →
      (fstring quasis es).everywhere isFree = true → ∀ rest,
      Target.Template.read? ((fstring quasis es).toCode.toList ++ rest) =
        some (⟨quasis, es.map toCode⟩, rest)) ∧
    ∀ content line quasis es, FString.read content line = .ok (quasis, es) →
      (fstring quasis es).everywhere isProper = true := by
  refine ⟨fun quasis es hlength rest => ?_, fun quasis es hproper hfree rest => ?_,
    fun content line quasis es hread => ?_⟩
  · rw [toList_toCode_fstring, Target.Template.readAround?]
    exact Target.Template.quasisAround?_templateBody (by rw [hlength, List.length_map]) rest
  · obtain ⟨hcount, hes⟩ := Bool.and_eq_true_iff.1 hproper
    have hlength : quasis.length = es.length + 1 := of_decide_eq_true hcount
    have hoperands := isOperand_lowerAll es hes (Bool.and_eq_true_iff.1 hfree).2
    rw [toList_toCode_fstring, Target.Template.read?]
    refine Target.Template.pieces?_templateBody ?_ (by rw [hlength, List.length_map]) rest
    rw [← renderAll_lowerAll]
    exact Target.Template.closes_of_mem_renderAll hoperands
  · have hgives := Grammar.gives_isLexical (String.ofList content) line quasis es
    obtain ⟨hlength, hes⟩ := hgives (by rwa [Program.fstringReader, String.toList_ofList])
    exact everywhere_isProper (fstring quasis es) ⟨hlength, areLexical_iff.2 hes⟩

/-- The start of a placeholder, a backquote, a backslash and line ends, and a `$` right
before the placeholder between the two pieces. -/
def piecesToEscape : List String := ["\\\x60$\x7b\n\r$", "\x7d$"]

/-- A quotient, with a string and an f-string inside that have braces and backquotes. -/
def quotientOfTexts : Expr :=
  .binary (.ident "a") .div
    (.call (.ident "g") [.literal (.string "\x60\x7b\x7d"), .fstring ["$", ""] [.ident "b"]]) 1

theorem read?_piecesToEscape :
    FString.read
        "\\\x60$\x7b\x7b\n\r$\x7ba / g(\"\x60\x7b\x7d\", f'$\x7bb\x7d')\x7d\x7d\x7d$".toList 1 =
      .ok (piecesToEscape, [quotientOfTexts]) ∧
    quotientOfTexts.toCode = "a / g(\"\x60\x7b\x7d\", \x60$$\x7bb\x7d\x60)" ∧
    Target.Template.readAround? [quotientOfTexts.toCode]
        ((fstring piecesToEscape [quotientOfTexts]).toCode.toList ++ [';']) =
      some (piecesToEscape, [';']) ∧
    Target.Template.read? ((fstring piecesToEscape [quotientOfTexts]).toCode.toList ++ [';']) =
      some (⟨piecesToEscape, [quotientOfTexts.toCode]⟩, [';']) := by
  have hread : FString.read
      "\\\x60$\x7b\x7b\n\r$\x7ba / g(\"\x60\x7b\x7d\", f'$\x7bb\x7d')\x7d\x7d\x7d$".toList 1 =
      .ok (piecesToEscape, [quotientOfTexts]) := by decide +kernel
  have hproper := read?_fstring.2.2 _ _ _ _ hread
  have hfree : (fstring piecesToEscape [quotientOfTexts]).everywhere isFree = true := by
    decide +kernel
  exact ⟨hread, by decide +kernel, read?_fstring.1 piecesToEscape [quotientOfTexts] rfl [';'],
    read?_fstring.2.1 piecesToEscape [quotientOfTexts] hproper hfree [';']⟩

/-- The quotients `void / a` and `b / +c`. -/
def voidQuotients : List Expr :=
  [.binary (.ident "void") .div (.ident "a") 1,
    .binary (.ident "b") .div (.unary .pos (.ident "c")) 1]

/-- After `void` a solidus starts a regular expression. It goes up to the solidus in the
next placeholder, so one placeholder is found where the f-string has two. A point after
the digits of a number belongs to the number, and a name cannot follow it. -/
theorem read?_voidQuotients :
    FString.read "\x7bvoid / a\x7d\x7bb / +c\x7d".toList 1 = .ok (["", "", ""], voidQuotients) ∧
    (fstring ["", "", ""] voidQuotients).toCode =
      "\x60$\x7bvoid / a\x7d$\x7bb / +c\x7d\x60" ∧
    Target.Template.read? (fstring ["", "", ""] voidQuotients).toCode.toList =
      some (⟨["", ""], ["void / a\x7d$\x7bb / +c"]⟩, []) ∧
    FString.read "\x7b1 .a\x7d".toList 1 =
      .ok (["", ""], [.attr (.literal (.number (.ofDecimal false ⟨1, 0⟩))) "a"]) ∧
    Target.Template.read?
      (fstring ["", ""] [.attr (.literal (.number (.ofDecimal false ⟨1, 0⟩))) "a"]).toCode.toList =
        none := by
  refine ⟨by decide +kernel, by decide +kernel, by decide +kernel, by decide +kernel, ?_⟩
  decide +kernel

end Offside.Expr
