import Offside.Grammar.Expression
import Offside.Token.Layout

/-!
# Offside.Grammar.FString

The text of an f-string. A doubled brace stands for one brace, and a single
opening brace starts a placeholder, which ends at the brace that balances it.
The source between the two is an expression with tokens of its own.

* `FString.cut` finds the placeholders, from left to right, up to the first
  brace that stands alone;
* `FString.read` reads the expressions in them. A placeholder may hold an
  f-string in turn; its text is part of the text around it, so it is shorter,
  and the recursion ends.
-/

namespace Offside.Grammar

/-- The line that is reported for the end of the tokens. -/
def endLine (ts : List Token) : Nat := (ts.getLast?.map Token.line).getD 1

end Offside.Grammar

namespace Offside.FString

open Offside.Grammar (Reader)

/-! ### Placeholders -/

/-- The text of an f-string, cut at its placeholders. The characters of a text
piece have their braces undoubled. -/
inductive Body where
  /-- A text piece up to the end. -/
  | text (chars : List Char)
  /-- A text piece, the source in the placeholder after it, and what follows. -/
  | hole (chars : List Char) (source : List Char) (rest : Body)
  /-- The text ends in a brace without its partner. -/
  | broken (fault : FStringFault)
deriving DecidableEq, Repr

/-- Put a character in front of the first text piece. -/
def Body.push (c : Char) : Body → Body
  | text chars => text (c :: chars)
  | hole chars source rest => hole (c :: chars) source rest
  | broken fault => broken fault

/-- The source of a placeholder, inside `depth` more braces, and the text after
the brace that closes it. -/
def placeholder? (depth : Nat) : List Char → Option (List Char × List Char)
  | [] => none
  | '\x7b' :: cs =>
    (placeholder? (depth + 1) cs).map fun (source, rest) => ('\x7b' :: source, rest)
  | '\x7d' :: cs =>
    match depth with
    | 0 => some ([], cs)
    | outer + 1 => (placeholder? outer cs).map fun (source, rest) => ('\x7d' :: source, rest)
  | c :: cs => (placeholder? depth cs).map fun (source, rest) => (c :: source, rest)

theorem placeholder?_append {depth : Nat} {cs source rest : List Char}
    (h : placeholder? depth cs = some (source, rest)) : source ++ '\x7d' :: rest = cs := by
  fun_induction placeholder? depth cs generalizing source rest with
  | case1 => simp at h
  | case3 => simp_all
  | case2 _ _ ih | case4 _ _ ih | case5 _ _ _ _ _ ih =>
    obtain ⟨⟨s, r⟩, hs, heq⟩ := Option.map_eq_some_iff.1 h
    obtain ⟨rfl, rfl⟩ := Prod.mk.inj heq
    simp [ih hs]

/-- Cut the text of an f-string at its placeholders. -/
def cut : List Char → Body
  | [] => .text []
  | '\x7b' :: '\x7b' :: cs => (cut cs).push '\x7b'
  | '\x7b' :: cs =>
    match _h : placeholder? 0 cs with
    | some (source, rest) => .hole [] source (cut rest)
    | none => .broken .unclosed
  | '\x7d' :: '\x7d' :: cs => (cut cs).push '\x7d'
  | '\x7d' :: _ => .broken .unmatched
  | c :: cs => (cut cs).push c
termination_by cs => cs.length
decreasing_by
  · grind
  · have := placeholder?_append _h
    grind
  · grind
  · grind

/-! ### Expressions in placeholders -/

/-- The expression that all of the tokens form, or the failure `trailing` if
some are left. -/
def whole (fstring : Reader) (trailing : Failure) (ts : List Token) : Except Failure Expr :=
  match (Grammar.expression ⟨Grammar.endLine ts, fstring⟩ 0 ts).run with
  | (.ok e, []) => .ok e
  | (.ok _, _ :: _) => .error trailing
  | (.error e, _) => .error e

/-- The expression in a placeholder of an f-string on `line`. -/
def embedded (fstring : Reader) (line : Nat) (source : List Char) : Except Failure Expr :=
  whole fstring (.fstring line (.trailing (String.ofList source))) (Token.ofExpression source line)

/-- The text pieces and the expressions of a text that has been cut. The first
failure from the left wins. -/
def Body.read (line : Nat) (expression : List Char → Except Failure Expr) :
    Body → Except Failure (List String × List Expr)
  | text chars => .ok ([String.ofList (Text.unescapeChars chars)], [])
  | hole chars source rest => do
    let e ← expression source
    let (quasis, expressions) ← rest.read line expression
    return (String.ofList (Text.unescapeChars chars) :: quasis, e :: expressions)
  | broken fault => .error (.fstring line fault)

/-- The text pieces of an f-string on `line`, which are one more than its
placeholders, and the expressions in those. The f-strings inside are shorter,
so the test before the recursion never fails. -/
def read (content : List Char) (line : Nat) : Except Failure (List String × List Expr) :=
  (cut content).read line (embedded (fun inner innerLine =>
    if inner.toList.length < content.length then read inner.toList innerLine
    else .error (.fstring innerLine .unclosed)) line)
termination_by content.length

end Offside.FString
