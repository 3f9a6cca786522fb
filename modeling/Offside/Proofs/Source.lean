import Offside.Ast
import Offside.Decimal.Numeral
import Offside.Proofs.Spelling

/-!
# Offside.Proofs.Source

Programs **written as source text**: one statement per line, blocks indented,
the branches of conditionals and loops spelled out, texts escaped.

A program is first written as lexemes, blanks and line ends among them, and its
source is what these spell. The writer is free in a `SourceStyle`, and writes
every tree; which trees are programs of the source language says
`isWellFormed`.
-/

namespace Offside

/-- What a writer of source text is free to choose. -/
structure SourceStyle where
  /-- The number of spaces by which a block is indented. -/
  width : Nat
  width_pos : 0 < width
  /-- The quote around texts. -/
  quote : Char
  isQuote : quote = '"' ∨ quote = '\''
  /-- The spellings of numbers. -/
  spell : Binary64 → List Char

namespace Lexeme

/-- The blank that separates words and operators. -/
def space : Lexeme := .blanks [' ']

/-- The lexemes of names with a separator between them. -/
def ofNames (separator : List Lexeme) : List String → List Lexeme
  | [] => []
  | name :: names =>
    .word name.toList :: names.flatMap fun other => separator ++ [.word other.toList]

end Lexeme

open Lexeme (space)

/-! ### Expressions -/

/-- The lexeme of an operator. -/
def BinaryOp.lexeme : BinaryOp → Lexeme
  | .and => .word "and".toList
  | .or => .word "or".toList
  | op => .operator op.symbol.toList

/-- The lexemes of an operator before its operand. -/
def UnaryOp.lexemes : UnaryOp → List Lexeme
  | .neg => [.operator ['-']]
  | .pos => [.operator ['+']]
  | .not => [.word "not".toList, space]

/-- The lexeme of a literal. -/
def Literal.lexeme (style : SourceStyle) : Literal → Lexeme
  | .number value => .number (style.spell value)
  | .string value => .quoted [] style.quote (Text.literalChars style.quote value.toList)
  | .boolean true => .word "True".toList
  | .boolean false => .word "False".toList
  | .null => .word "None".toList

namespace Expr

mutual

/-- The lexemes of an expression. An f-string has none. -/
def lexemes (style : SourceStyle) : Expr → List Lexeme
  | .ident name => [.word name.toList]
  | .literal value => [value.lexeme style]
  | .fstring .. => []
  | .binary left op right _ =>
    lexemes style left ++ space :: op.lexeme :: space :: lexemes style right
  | .unary op operand => op.lexemes ++ lexemes style operand
  | .attr value name => lexemes style value ++ [.dot, .word name.toList]
  | .call callee args =>
    lexemes style callee ++ .delimiter '(' :: (lexemesAll style args ++ [.delimiter ')'])
  | .index target position =>
    lexemes style target ++ .delimiter '[' :: (lexemes style position ++ [.delimiter ']'])
  | .list items => .delimiter '[' :: (lexemesAll style items ++ [.delimiter ']'])
  | .group inner => .delimiter '(' :: (lexemes style inner ++ [.delimiter ')'])

/-- The lexemes of expressions with commas between them. -/
def lexemesAll (style : SourceStyle) : List Expr → List Lexeme
  | [] => []
  | e :: es => lexemes style e ++ moreLexemes style es

/-- The lexemes of expressions with a comma before each of them. -/
def moreLexemes (style : SourceStyle) : List Expr → List Lexeme
  | [] => []
  | e :: es => .delimiter ',' :: space :: (lexemes style e ++ moreLexemes style es)

end

/-- An expression is an atom or a chain of attributes, calls and elements. -/
def isPrimary : Expr → Bool
  | .binary .. | .unary .. => false
  | _ => true

/-- An expression is a binary operation. -/
def isBinary : Expr → Bool
  | .binary .. => true
  | _ => false

/-- An expression binds at least as tightly as operators of the given power. -/
def hasPower (m : Nat) : Expr → Bool
  | .binary _ op _ _ => m ≤ op.precedence
  | _ => true

mutual

/-- An expression without f-strings is what its lexemes say: names are
identifiers, numbers have spellings, and operands stay together. -/
def isWellFormed (style : SourceStyle) : Expr → Bool
  | .ident name => Lexeme.isName name
  | .literal (.number value) =>
    Lexeme.isNumeral (style.spell value) &&
      Numeral.read? (String.ofList (style.spell value)) = some value
  | .literal _ => true
  | .fstring .. => false
  | .binary left op right _ =>
    isWellFormed style left && left.hasPower op.precedence &&
      (isWellFormed style right && right.hasPower (op.precedence + 1))
  | .unary _ operand => isWellFormed style operand && !operand.isBinary
  | .attr value name => isWellFormed style value && value.isPrimary && Lexeme.isName name
  | .call callee args =>
    isWellFormed style callee && callee.isPrimary && areWellFormed style args
  | .index target position =>
    isWellFormed style target && target.isPrimary && isWellFormed style position
  | .list items => areWellFormed style items
  | .group inner => isWellFormed style inner

/-- Expressions are what their lexemes say. -/
def areWellFormed (style : SourceStyle) : List Expr → Bool
  | [] => true
  | e :: es => isWellFormed style e && areWellFormed style es

end

end Expr

/-! ### Statements -/

/-- A line of source text: how many blocks it stands in, and its lexemes. -/
structure SourceLine where
  depth : Nat
  lexemes : List Lexeme

namespace Stmt

/-- The lexemes of a line that ends in a colon. -/
def header (keyword : String) (ls : List Lexeme) : List Lexeme :=
  .word keyword.toList :: space :: (ls ++ [.delimiter ':'])

/-- The lexemes of an `else` line. -/
def elseHeader : List Lexeme := [.word "else".toList, .delimiter ':']

mutual

/-- The lines of a statement. -/
def lines (style : SourceStyle) (depth : Nat) : Stmt → List SourceLine
  | .assign target value =>
    [⟨depth, target.lexemes style ++ space :: .operator ['='] :: space :: value.lexemes style⟩]
  | .augAssign target op value =>
    [⟨depth, target.lexemes style ++
      space :: .operator op.symbol.toList :: space :: value.lexemes style⟩]
  | .expr value => [⟨depth, value.lexemes style⟩]
  | .returnValue none => [⟨depth, [.word "return".toList]⟩]
  | .returnValue (some value) =>
    [⟨depth, .word "return".toList :: space :: value.lexemes style⟩]
  | .functionDef name params body =>
    ⟨depth, header "def" (.word name.toList :: .delimiter '(' ::
      (Lexeme.ofNames [.delimiter ',', space] params ++ [.delimiter ')']))⟩ ::
      blockLines style (depth + 1) body
  | .ifElse condition body alternate =>
    ⟨depth, header "if" (condition.lexemes style)⟩ ::
      (blockLines style (depth + 1) body ++ alternateLines style depth alternate)
  | .whileLoop condition body orelse =>
    ⟨depth, header "while" (condition.lexemes style)⟩ ::
      (blockLines style (depth + 1) body ++ orelseLines style depth orelse)
  | .forLoop target iter body orelse =>
    ⟨depth, header "for" (target.lexemes style ++
      space :: .word "in".toList :: space :: iter.lexemes style)⟩ ::
      (blockLines style (depth + 1) body ++ orelseLines style depth orelse)
  | .classDef name body =>
    ⟨depth, header "class" [.word name.toList]⟩ :: blockLines style (depth + 1) body
  | .importModule path => [⟨depth, .word "import".toList :: space :: Lexeme.ofNames [.dot] path⟩]
  | .breakLoop => [⟨depth, [.word "break".toList]⟩]
  | .continueLoop => [⟨depth, [.word "continue".toList]⟩]
  | .pass => [⟨depth, [.word "pass".toList]⟩]

/-- The lines of the rest of a conditional. -/
def alternateLines (style : SourceStyle) (depth : Nat) : Alternate → List SourceLine
  | .none => []
  | .elseIf condition body alternate =>
    ⟨depth, header "elif" (condition.lexemes style)⟩ ::
      (blockLines style (depth + 1) body ++ alternateLines style depth alternate)
  | .otherwise body => ⟨depth, elseHeader⟩ :: blockLines style (depth + 1) body

/-- The lines of the `else` block of a loop. One without statements is not
written. -/
def orelseLines (style : SourceStyle) (depth : Nat) : List Stmt → List SourceLine
  | [] => []
  | s :: ss =>
    ⟨depth, elseHeader⟩ :: (lines style (depth + 1) s ++ blockLines style (depth + 1) ss)

/-- The lines of statements. -/
def blockLines (style : SourceStyle) (depth : Nat) : List Stmt → List SourceLine
  | [] => []
  | s :: ss => lines style depth s ++ blockLines style depth ss

end

mutual

/-- A statement is what its lines say: its parts are, and its blocks have
statements. -/
def isWellFormed (style : SourceStyle) : Stmt → Bool
  | .assign target value | .augAssign target _ value =>
    target.isWellFormed style && target.isTarget && value.isWellFormed style
  | .expr value => value.isWellFormed style
  | .returnValue value => value.all (Expr.isWellFormed style)
  | .functionDef name params body =>
    Lexeme.isName name && params.all Lexeme.isName && isBlock style body
  | .ifElse condition body alternate =>
    condition.isWellFormed style && isBlock style body && isAlternate style alternate
  | .whileLoop condition body orelse =>
    condition.isWellFormed style && isBlock style body && areWellFormed style orelse
  | .forLoop target iter body orelse =>
    target.isWellFormed style && target.isPrimary && iter.isWellFormed style &&
      isBlock style body && areWellFormed style orelse
  | .classDef name body => Lexeme.isName name && isBlock style body
  | .importModule path => !path.isEmpty && path.all Lexeme.isName
  | .breakLoop | .continueLoop | .pass => true

/-- The rest of a conditional is what its lines say. -/
def isAlternate (style : SourceStyle) : Alternate → Bool
  | .none => true
  | .elseIf condition body alternate =>
    condition.isWellFormed style && isBlock style body && isAlternate style alternate
  | .otherwise body => isBlock style body

/-- Statements are what their lines say, and there are some. -/
def isBlock (style : SourceStyle) : List Stmt → Bool
  | [] => false
  | s :: ss => isWellFormed style s && areWellFormed style ss

/-- Statements are what their lines say. -/
def areWellFormed (style : SourceStyle) : List Stmt → Bool
  | [] => true
  | s :: ss => isWellFormed style s && areWellFormed style ss

end

end Stmt

/-! ### Programs -/

/-- The blanks before a line. -/
def Lexeme.indentation (column : Nat) : List Lexeme :=
  if column = 0 then [] else [.blanks (List.replicate column ' ')]

/-- The lexemes of a line with the blanks before it and the line end. -/
def SourceLine.layOut (style : SourceStyle) (l : SourceLine) : List Lexeme :=
  Lexeme.indentation (style.width * l.depth) ++ (l.lexemes ++ [.newline])

namespace Program

/-- The lexemes of a program. -/
def lexemes (style : SourceStyle) (p : Program) : List Lexeme :=
  (Stmt.blockLines style 0 p.statements).flatMap (SourceLine.layOut style)

/-- The source text of a program. -/
def source (style : SourceStyle) (p : Program) : String :=
  String.ofList (Lexeme.spellAll (p.lexemes style))

/-- A program is what its source says. -/
def isWellFormed (style : SourceStyle) (p : Program) : Bool :=
  Stmt.areWellFormed style p.statements

end Program

end Offside
