/-!
# Offside.Token

Tokens: the alphabet of the grammar. A token has a kind, a text and the line it
starts on. The text of a string or an f-string is what stands between the
quotes; the text of an `indent` is the column of the line that it opens, and
that of a `dedent` the column of the block that it closes.
-/

namespace Offside

/-- The kinds of token. -/
inductive TokenKind where
  | comment
  | string
  /-- A string literal marked with `f`, whose placeholders hold expressions. -/
  | fstring
  | keyword
  | identifier
  | number
  | operator
  | delimiter
  | dot
  | newline
  /-- A block opens. -/
  | indent
  /-- A block closes. -/
  | dedent
  | whitespace
  /-- A character that belongs to no other kind. -/
  | error
  /-- The end of the input. -/
  | eof
deriving DecidableEq, Repr

namespace TokenKind

/-- All kinds, in declaration order. -/
def all : List TokenKind :=
  [comment, string, fstring, keyword, identifier, number, operator, delimiter, dot, newline,
    indent, dedent, whitespace, error, eof]

/-- The name of a kind in messages. -/
def name : TokenKind → String
  | comment => "COMMENT"
  | string => "STRING"
  | fstring => "FSTRING"
  | keyword => "KEYWORD"
  | identifier => "IDENTIFIER"
  | number => "NUMBER"
  | operator => "OPERATOR"
  | delimiter => "DELIMITER"
  | dot => "DOT"
  | newline => "NEWLINE"
  | indent => "INDENT"
  | dedent => "DEDENT"
  | whitespace => "WHITESPACE"
  | error => "ERROR"
  | eof => "EOF"

/-- The name of a kind in data. It differs from `name` for f-strings only. -/
def dataName : TokenKind → String
  | fstring => "F_STRING"
  | kind => kind.name

/-- The kind with the given name. -/
def ofName? (s : String) : Option TokenKind := all.find? (·.name = s)

end TokenKind

/-- A token of the source. -/
structure Token where
  kind : TokenKind
  text : String
  line : Nat
deriving DecidableEq, Repr

namespace Token

/-- The token that stands for the end of the input. -/
def eof (line : Nat) : Token := ⟨.eof, "", line⟩

/-- A token has the given kind and text. -/
def is (t : Token) (kind : TokenKind) (text : String) : Bool := t.kind = kind ∧ t.text = text

/-- A token as messages show it. Line ends and the end of the input have no
text of their own. -/
def describe (t : Token) : String :=
  match t.kind with
  | .newline => "NEWLINE"
  | .eof => "EOF"
  | kind => kind.name ++ " '" ++ t.text ++ "'"

theorem is_iff {t : Token} {kind : TokenKind} {text : String} :
    t.is kind text = true ↔ t.kind = kind ∧ t.text = text := by
  simp [is]

end Token

end Offside
