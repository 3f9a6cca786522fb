/-!
# Offside.Text.Literal

String literals. In the source, a backslash and a letter stand for a character
(`unescape`). In JSON and JavaScript, which share the form of double-quoted
literals (`quote`), the quote and the backslash follow a backslash, five control
characters have letters of their own, and the other characters below U+0020 are
written as `\u` with four hexadecimal digits. All else stands for itself.
-/

namespace Offside.Text

/-! ### Literals of the source -/

/-- The character that an escape with this letter stands for. -/
def escaped? (c : Char) : Option Char :=
  if c = 'n' then some '\n'
  else if c = 't' then some '\t'
  else if c = 'r' then some '\r'
  else if c = '0' then some (Char.ofNat 0)
  else if c = '\\' ∨ c = '\'' ∨ c = '"' then some c
  else none

/-- The text that a literal's characters stand for. A backslash that starts no
escape stands for itself. -/
def unescapeChars : List Char → List Char
  | '\\' :: c :: cs =>
    match escaped? c with
    | some d => d :: unescapeChars cs
    | none => '\\' :: c :: unescapeChars cs
  | c :: cs => c :: unescapeChars cs
  | [] => []

/-- The text that a string literal stands for. -/
def unescape (s : String) : String := String.ofList (unescapeChars s.toList)

/-! ### Literals of JSON and JavaScript -/

/-- The text of a character between double quotes. -/
def escapeChar (c : Char) : List Char :=
  if c = '"' then ['\\', '"']
  else if c = '\\' then ['\\', '\\']
  else if c = '\x08' then ['\\', 'b']
  else if c = '\t' then ['\\', 't']
  else if c = '\n' then ['\\', 'n']
  else if c = '\x0c' then ['\\', 'f']
  else if c = '\r' then ['\\', 'r']
  else if c.toNat < 32 then
    ['\\', 'u', '0', '0', (c.toNat / 16).digitChar, (c.toNat % 16).digitChar]
  else [c]

/-- The literal that stands for `s`. -/
def quote (s : String) : String :=
  String.ofList ('"' :: (s.toList.flatMap escapeChar ++ ['"']))

end Offside.Text
