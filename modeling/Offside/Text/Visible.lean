import Offside.Text.ExtendingMark
import Offside.Text.Printable

/-!
# Offside.Text.Visible

Texts between double quotes in which every character can be seen: quotes and
backslashes follow a backslash, four control characters have letters, and other
characters that cannot be seen on their own are written by their code point.
-/

namespace Offside.Text

/-! ### Characters without an image -/

/-- The ranges of code points with the property Default_Ignorable_Code_Point, as of
Unicode 17.0: they have no image even where they are assigned. Most of them are format
characters and variation selectors; the fillers of Hangul are letters. -/
def ignorableRanges : Ranges where
  ranges :=
    [(0xad, 0xad), (0x34f, 0x34f), (0x61c, 0x61c), (0x115f, 0x1160), (0x17b4, 0x17b5),
      (0x180b, 0x180f), (0x200b, 0x200f), (0x202a, 0x202e), (0x2060, 0x206f), (0x3164, 0x3164),
      (0xfe00, 0xfe0f), (0xfeff, 0xfeff), (0xffa0, 0xffa0), (0xfff0, 0xfff8), (0x1bca0, 0x1bca3),
      (0x1d173, 0x1d17a), (0xe0000, 0xe0fff)]
  ascending := by decide

/-- A character has the property Default_Ignorable_Code_Point. -/
def isIgnorable (c : Char) : Bool := ignorableRanges.covers c

/-- A character can be seen on its own: it is of a kind that has an image, is not
ignored all the same, and does not attach to the character before it. -/
def standsAlone (c : Char) : Bool := isPrintable c && !isIgnorable c && !isExtendingMark c

/-! ### Texts between quotes -/

/-- A character, written by its code point. -/
def codePoint (c : Char) : List Char :=
  '\\' :: 'u' :: '\x7b' :: (Nat.toDigits 16 c.toNat ++ ['\x7d'])

/-- A character between quotes. -/
def visibleChar (c : Char) : List Char :=
  if c = Char.ofNat 0 then ['\\', '0']
  else if c = '\t' then ['\\', 't']
  else if c = '\r' then ['\\', 'r']
  else if c = '\n' then ['\\', 'n']
  else if c = '"' ∨ c = '\\' then ['\\', c]
  else if standsAlone c then [c]
  else codePoint c

/-- A text between quotes. -/
def visible (s : String) : String :=
  String.ofList ('"' :: (s.toList.flatMap visibleChar ++ ['"']))

end Offside.Text
