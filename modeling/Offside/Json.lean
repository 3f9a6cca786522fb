import Offside.Decimal.Style
import Offside.Text.Literal

/-!
# Offside.Json

JSON values whose objects keep the order of their fields, and two ways to write
them: on one line without blanks, and over several lines with an indentation of
two spaces.
-/

namespace Offside

/-- A JSON value. -/
inductive Json where
  | null
  | boolean (value : Bool)
  | natural (value : Nat)
  | number (value : Binary64)
  | string (value : String)
  | array (items : List Json)
  | object (fields : List (String × Json))

namespace Json

/-- An optional value, `null` if there is none. -/
def ofOption {α : Type} (f : α → Json) : Option α → Json
  | some a => f a
  | none => null

/-- The text of a value that has no parts. JSON has no infinities and no
`nan`; `null` stands for them. -/
def scalar : Json → String
  | boolean true => "true"
  | boolean false => "false"
  | natural n => toString n
  | number x => x.toData?.getD "null"
  | string s => Text.quote s
  | _ => "null"

mutual

/-- A value on one line, without blanks. -/
def compact : Json → String
  | array items => "[" ++ ",".intercalate (compactItems items) ++ "]"
  | object fields => "\x7b" ++ ",".intercalate (compactFields fields) ++ "\x7d"
  | value => value.scalar

/-- The items of an array, each on one line. -/
def compactItems : List Json → List String
  | [] => []
  | item :: items => compact item :: compactItems items

/-- The fields of an object, each on one line. -/
def compactFields : List (String × Json) → List String
  | [] => []
  | (name, value) :: fields => (Text.quote name ++ ":" ++ compact value) :: compactFields fields

end

/-- Two spaces for each level. -/
def margin (depth : Nat) : String := String.ofList (List.replicate (2 * depth) ' ')

/-- Parts between brackets, each on its own line one level deeper than the
brackets. Brackets without parts stay together. -/
def bracket (left right : String) (depth : Nat) (parts : List String) : String :=
  if parts.isEmpty then left ++ right
  else
    left ++ "\n" ++ ",\n".intercalate (parts.map (margin (depth + 1) ++ ·)) ++ "\n" ++
      margin depth ++ right

mutual

/-- A value over several lines, the first of which starts at `depth`. -/
def pretty (depth : Nat) : Json → String
  | array items => bracket "[" "]" depth (prettyItems (depth + 1) items)
  | object fields => bracket "\x7b" "\x7d" depth (prettyFields (depth + 1) fields)
  | value => value.scalar

/-- The items of an array, without the margin of their first lines. -/
def prettyItems (depth : Nat) : List Json → List String
  | [] => []
  | item :: items => pretty depth item :: prettyItems depth items

/-- The fields of an object, without the margin of their first lines. -/
def prettyFields (depth : Nat) : List (String × Json) → List String
  | [] => []
  | (name, value) :: fields =>
    (Text.quote name ++ ": " ++ pretty depth value) :: prettyFields depth fields

end

end Json

end Offside
