import Offside.Proofs.JavaScript.Rendering

/-!
# Offside.Proofs.JavaScript.Template

Template literals, **read without a grammar of expressions**. `Template.read?` looks
for the text pieces of a literal, with their escapes resolved, and for the code in
its placeholders, by the lexical rules alone: in text, a backquote ends the literal
and `$` before a brace opens a placeholder, unless a backslash stands before them; in
code, a brace closes the placeholder, unless it is in a string, in a regular
expression or in a template literal inside.

Whether a solidus divides or starts a regular expression depends on the lexeme before
it, so the reader keeps track of what may come next (`Template.Place`). This is where
reserved words matter: after `void` an operand is still to come. What could hide a
brace in other ways is refused, not passed over: comments, braces of objects and
functions, and all symbols that generated code does not use.

The text pieces that generated code has are found as they were, whatever the code
between them (`Template.quasisAround?_templateBody`), and so is the code, if it is
that of operands (`Template.pieces?_templateBody`).
-/

open Offside.Target.Lexeme (Cuts anyChar text? isNamePart endsName endsNumber endsPunctuator)

namespace Offside.Target

/-- A template literal: its text pieces, with escapes resolved, and the code in the
placeholders between them. -/
structure Template where
  quasis : List String
  codes : List String
deriving DecidableEq, Repr

namespace Template

/-! ### What may come next -/

/-- What may come next in code. -/
inductive Place where
  /-- An operand, or an operator or a bracket before one. -/
  | operand
  /-- What goes on after an operand. -/
  | operator
  /-- The name of a field. -/
  | field
deriving DecidableEq, Repr

namespace Place

/-- The reserved words that stand before an operand. -/
def wordsBeforeOperand : List String := ["delete", "new", "typeof", "void"]

/-- The reserved words that stand between two operands. -/
def wordsBetweenOperands : List String := ["in", "instanceof"]

/-- What may come after a word. Other reserved words than those that take or are
operands are refused; as the name of a field, all words are alike. -/
def afterWord? (text : String) : Place → Option Place
  | operand =>
    if text = "this" ∨ (named? text).isSome then some operator
    else if wordsBeforeOperand.contains text then some operand
    else none
  | operator => if wordsBetweenOperands.contains text then some operand else none
  | field => some operator

/-- What may come after a symbol. -/
def afterSymbol? (symbol : String) : Place → Option Place
  | operand =>
    if ["(", "[", "-", "+", "!"].contains symbol then some operand
    else if [")", "]"].contains symbol then some operator
    else none
  | operator =>
    if symbol = "." then some field
    else if [")", "]"].contains symbol then some operator
    else if ["(", "[", ","].contains symbol || BinaryOp.all.any (·.symbol = symbol) then
      some operand
    else none
  | field => none

/-- What may come after a lexeme other than a template literal. -/
def after? (place : Place) : Lexeme → Option Place
  | .name text => place.afterWord? text
  | .number _ | .string _ => if place = operand then some operator else none
  | .punctuator symbol => place.afterSymbol? symbol
  | .chunk .. => none

end Place

/-! ### Code in placeholders -/

/-- What follows the regular expression at the head of a text, its first solidus already
read. Between square brackets a solidus does not end it. -/
def pattern? (bracketed : Bool) : List Char → Option (List Char)
  | [] => none
  | '\\' :: c :: cs => if isLineEnd c then none else pattern? bracketed cs
  | c :: cs =>
    if isLineEnd c then none
    else if c = '/' ∧ bracketed = false then some (cs.dropWhile isNamePart)
    else pattern? (c = '[' ∨ (bracketed ∧ c ≠ ']')) cs
where
  /-- A line ends with this character. -/
  isLineEnd (c : Char) : Bool := ['\n', '\r', '\u2028', '\u2029'].contains c

/-- What has been taken from a text of which `rest` is left. -/
def taken (cs rest : List Char) : List Char := cs.take (cs.length - rest.length)

/-- Put text in front of the code that has been found. -/
def inFront (text : List Char) (found : List Char × List Char) : List Char × List Char :=
  (text ++ found.1, found.2)

mutual

/-- The code of a placeholder at the head of a text, up to the brace that closes it,
and what follows the brace. -/
def code? (place : Place) (cs : List Char) : Option (List Char × List Char) :=
  match cs with
  | [] => none
  | c :: cs =>
    if c = '\x7d' then if place = .operator then some ([], cs) else none
    else if Lexeme.spaces.contains c then (code? place cs).map (inFront [c])
    else (item? place c cs).bind fun (next, rest) =>
      if rest.length ≤ cs.length then (code? next rest).map (inFront (taken (c :: cs) rest))
      else none
termination_by 3 * cs.length
decreasing_by all_goals simp only [List.length_cons]; omega

/-- What may come after the piece of code at the head of the text `c :: cs`, and the
text that follows the piece. -/
def item? (place : Place) (c : Char) (cs : List Char) : Option (Place × List Char) :=
  if c = '\x60' ∧ place ≠ .field then (pieces? cs).map fun (_, rest) => (.operator, rest)
  else if c = '/' ∧ place = .operand then
    if cs.head? = some '/' ∨ cs.head? = some '*' then none
    else (pattern? false cs).map fun rest => (.operator, rest)
  else
    (Lexeme.next? 0 c cs).bind fun (x, _, rest) => (place.after? x).map fun next => (next, rest)
termination_by 3 * cs.length + 2
decreasing_by omega

/-- The template literal at the head of a text, its opening backquote or the brace that
closes a placeholder already read, and what follows it. What is left of a text is never
longer than the text, so the tests before the recursion never fail. -/
def pieces? (cs : List Char) : Option (Template × List Char) :=
  (text? .template cs).bind fun (text, ends, rest) =>
    if ends then some (⟨[String.ofList text], []⟩, rest)
    else if rest.length ≤ cs.length then
      (code? .operand rest).bind fun (code, rest) =>
        if rest.length < cs.length then
          (pieces? rest).map fun (t, rest) =>
            (⟨String.ofList text :: t.quasis, String.ofList code :: t.codes⟩, rest)
        else none
    else none
termination_by 3 * cs.length + 1
decreasing_by all_goals omega

end

/-- The template literal at the head of a text, and what follows it. -/
def read? : List Char → Option (Template × List Char)
  | '\x60' :: cs => pieces? cs
  | _ => none

/-- The text pieces of the template literal at the head of a text, its opening backquote
already read, and what follows it, where the code in its placeholders is known. -/
def quasisAround? : List String → List Char → Option (List String × List Char)
  | [], cs =>
    (text? .template cs).bind fun (text, ends, rest) =>
      if ends then some ([String.ofList text], rest) else none
  | code :: codes, cs =>
    (text? .template cs).bind fun (text, ends, rest) =>
      if ends then none
      else (rest.dropPrefix? (code.toList ++ ['\x7d'])).bind fun rest =>
        (quasisAround? codes rest).map fun (quasis, rest) => (String.ofList text :: quasis, rest)

/-- The text pieces of the template literal at the head of a text, and what follows it,
where the code in its placeholders is known. -/
def readAround? (codes : List String) : List Char → Option (List String × List Char)
  | '\x60' :: cs => quasisAround? codes cs
  | _ => none

/-! ### Passing over code

The reader passes over the code of an expression, from where an operand may come to
where an operator may. Codes are put together like the expressions they belong to, as
long as the character after each of them starts nothing longer.
-/

theorem taken_append (text rest : List Char) : taken (text ++ rest) rest = text := by
  simp [taken]

theorem map_inFront (found : Option (List Char × List Char)) (first second : List Char) :
    (found.map (inFront second)).map (inFront first) = found.map (inFront (first ++ second)) := by
  rw [Option.map_map]
  congr 1
  funext read
  simp [inFront]

/-- A piece of code in front of other code. -/
theorem code?_item {place next : Place} {c : Char} {cs rest : List Char}
    (hclose : c ≠ '\x7d') (hspace : c ∉ Lexeme.spaces)
    (hitem : item? place c (cs ++ rest) = some (next, rest)) :
    code? place (c :: (cs ++ rest)) = (code? next rest).map (inFront (c :: cs)) := by
  have htaken := taken_append (c :: cs) rest
  rw [List.cons_append] at htaken
  rw [code?, if_neg hclose, if_neg (by simpa using hspace), hitem, Option.bind_some]
  dsimp only
  rw [htaken, if_pos (by simp)]

/-- Code that is passed over wherever it stands, as long as the character after it is
one of the allowed ones. -/
def Passes (allowed : Char → Bool) (before after : Place) (text : List Char) : Prop :=
  ∀ rest, (∀ c ∈ rest.head?, allowed c = true) →
    code? before (text ++ rest) = (code? after rest).map (inFront text)

namespace Passes

variable {allowed allowed' : Char → Bool} {before middle after : Place} {text text' : List Char}

theorem mono (h : Passes allowed before after text)
    (hallowed : ∀ c, allowed' c = true → allowed c = true) :
    Passes allowed' before after text :=
  fun rest hrest => h rest fun c hc => hallowed c (hrest c hc)

theorem append (h : Passes allowed before middle text) (h' : Passes allowed' middle after text')
    (hnext : ∃ c, text'.head? = some c ∧ allowed c = true) :
    Passes allowed' before after (text ++ text') := by
  obtain ⟨c, hhead, hc⟩ := hnext
  intro rest hrest
  rw [List.append_assoc, h, h' rest hrest, map_inFront]
  intro d hd
  rw [List.head?_append, hhead] at hd
  cases hd
  exact hc

theorem append_any (h : Passes anyChar before middle text)
    (h' : Passes allowed' middle after text') : Passes allowed' before after (text ++ text') := by
  intro rest hrest
  rw [List.append_assoc, h _ fun _ _ => rfl, h' rest hrest, map_inFront]

/-- A lexeme that starts no template literal and no regular expression. -/
theorem of_cuts {x : Lexeme} {c : Char} (h : Cuts allowed text x)
    (hafter : before.after? x = some after) (hhead : text.head? = some c)
    (hmarks : c ∉ ['\x7d', '\x60']) (hsolidus : c = '/' → before ≠ .operand) :
    Passes allowed before after text := by
  obtain ⟨d, cs, rfl, hd, hnext⟩ := h
  obtain rfl : d = c := Option.some.inj hhead
  simp only [List.mem_cons, List.not_mem_nil, or_false, not_or] at hmarks
  intro rest hrest
  refine code?_item hmarks.1 hd ?_
  rw [item?, if_neg fun hquote => hmarks.2 hquote.1,
    if_neg fun hdivides => hsolidus hdivides.1 hdivides.2, hnext 0 rest hrest, Option.bind_some]
  dsimp only
  rw [hafter, Option.map_some]

end Passes

theorem passes_space (place : Place) : Passes anyChar place place [' '] := by
  intro rest _
  rw [List.singleton_append, code?, if_neg (by decide), if_pos (by decide)]

theorem passes_bracket {symbol : String} (h : symbol ∈ ["(", ")", "[", "]", ","])
    {before after : Place} (hafter : before.afterSymbol? symbol = some after) :
    Passes anyChar before after symbol.toList := by
  have hcuts : Cuts anyChar symbol.toList (.punctuator symbol) :=
    cuts_bracket (List.mem_append_left [";"] h)
  obtain ⟨c, hhead, hmarks, hsolidus⟩ :
      ∃ c, symbol.toList.head? = some c ∧ c ∉ ['\x7d', '\x60'] ∧ c ≠ '/' := by
    simp only [List.mem_cons, List.not_mem_nil, or_false] at h
    rcases h with rfl | rfl | rfl | rfl | rfl <;> exact ⟨_, rfl, by decide, by decide⟩
  exact .of_cuts hcuts hafter hhead hmarks fun heq => absurd heq hsolidus

/-- An operator stands between blanks, and after an operand a solidus divides. -/
theorem passes_operator (op : BinaryOp) :
    Passes anyChar .operator .operand (" " ++ op.symbol ++ " ").toList := by
  have hsymbol : op.symbol.toList ∈ Lexeme.punctuators ∧ op.symbol.toList ≠ ['\x7d'] ∧
      endsPunctuator op.symbol ' ' = true ∧
      Place.afterSymbol? op.symbol .operator = some .operand ∧
      ∃ c, op.symbol.toList.head? = some c ∧ c ∉ ['\x7d', '\x60'] := by
    cases op <;> exact ⟨by decide, by decide, by decide, by decide, _, rfl, by decide⟩
  obtain ⟨hmem, hne, hspace, hafter, c, hhead, hmarks⟩ := hsymbol
  have hpasses : Passes (endsPunctuator op.symbol) .operator .operand op.symbol.toList :=
    .of_cuts (Lexeme.cuts_punctuator hmem hne) hafter hhead hmarks (by simp)
  have hspaced := hpasses.append (passes_space .operand) ⟨' ', rfl, hspace⟩
  simpa using (passes_space .operator).append_any hspaced

theorem passes_word {text : String} (h : Lexeme.isName text.toList = true) {before after : Place}
    (hafter : before.afterWord? text = some after) :
    Passes endsName before after text.toList := by
  have hcuts := Lexeme.cuts_name h
  rw [String.ofList_toList] at hcuts
  obtain ⟨c, cs, htext, hc⟩ := exists_name_cons h
  have hmarks : c ∉ ['\x7d', '\x60', '/'] := Offside.Lexeme.not_mem_of_class hc (by decide)
  refine .of_cuts hcuts hafter (by rw [htext]; rfl : _ = some c) ?_ ?_
  · exact fun hmem => hmarks (List.mem_append_left ['/'] hmem)
  · exact fun heq => absurd (by simp [heq]) hmarks

/-! ### Operands -/

/-- The code of a tree is passed over as an operand. -/
structure IsOperand (t : Expr) : Prop where
  head : ∃ c, t.render.toList.head? = some c ∧ startsCode c = true
  passes : Passes t.follows .operand .operator t.render.toList

namespace IsOperand

variable {l r t : Expr}

/-- Only the code of a tree counts, and what can be told from it. -/
theorem congr {t' : Expr} (h : IsOperand t) (hrender : t'.render = t.render)
    (hends : t'.endsInNumber = t.endsInNumber) : IsOperand t' := by
  obtain ⟨hhead, hpasses⟩ := h
  rw [← hrender, ← Expr.follows_congr hends] at hpasses
  exact ⟨hrender ▸ hhead, hpasses⟩

/-- Code that no character could make longer. -/
theorem of_any {c : Char} (hhead : t.render.toList.head? = some c) (hc : startsCode c = true)
    (h : Passes anyChar .operand .operator t.render.toList) : IsOperand t :=
  ⟨⟨c, hhead, hc⟩, h.mono fun _ _ => rfl⟩

theorem word {text : String} (h : Lexeme.isName text.toList = true)
    (hfree : (named? text).isSome = true) (hrender : t.render = text) : IsOperand t := by
  obtain ⟨c, cs, htext, hc⟩ := exists_name_cons h
  have hafter : Place.afterWord? text .operand = some .operator := if_pos (.inr hfree)
  refine ⟨⟨c, by simp [hrender, htext], by simp [startsCode, hc]⟩, ?_⟩
  rw [hrender]
  exact (passes_word h hafter).mono fun d hd => (Bool.and_eq_true_iff.1 hd).1

theorem string (s : String) : IsOperand (.string s) := by
  have hhead : (Expr.string s).render.toList.head? = some '"' := by
    simp [Expr.render, Text.quote]
  exact .of_any hhead (by decide)
    (.of_cuts (Lexeme.cuts_string s) rfl hhead (by decide) (by decide))

theorem binary (hl : IsOperand l) (op : BinaryOp) (hr : IsOperand r) :
    IsOperand (.binary l op r) := by
  obtain ⟨c, hhead, hc⟩ := hl.head
  have hfollows : (Expr.binary l op r).follows = r.follows := Expr.follows_congr rfl
  have hright := (passes_operator op).append_any hr.passes
  have hall := hl.passes.append hright ⟨' ', by simp, follows_of_mem (by decide) l⟩
  refine ⟨⟨c, by simp [Expr.render, hhead], hc⟩, ?_⟩
  rw [hfollows]
  simpa [Expr.render] using hall

theorem unary (h : IsOperand t) {op : UnaryOp} (hsign : op = .not ∨ t.startsWithSign = false) :
    IsOperand (.unary op t) := by
  obtain ⟨c, hhead, hc⟩ := h.head
  have hfollows : (Expr.unary op t).follows = t.follows := Expr.follows_congr rfl
  have hsymbol : op.symbol.toList ∈ Lexeme.punctuators ∧ op.symbol.toList ≠ ['\x7d'] ∧
      Place.afterSymbol? op.symbol .operand = some .operand ∧
      (∃ d, op.symbol.toList.head? = some d ∧ startsCode d = true ∧ d ∉ ['\x7d', '\x60'] ∧
        d ≠ '/') := by
    cases op <;> exact ⟨by decide, by decide, by decide, _, rfl, by decide, by decide, by decide⟩
  obtain ⟨hmem, hne, hafter, d, hfirst, hd, hmarks, hsolidus⟩ := hsymbol
  have hnext : endsPunctuator op.symbol c = true := by
    refine Expr.IsScanned.endsPunctuator_unary hc (hsign.imp_right fun hstarts => ?_)
    obtain ⟨cs, htext⟩ := List.head?_eq_some_iff.1 hhead
    simpa [Expr.startsWithSign, htext] using hstarts
  have hpasses : Passes (endsPunctuator op.symbol) .operand .operand op.symbol.toList :=
    .of_cuts (Lexeme.cuts_punctuator hmem hne) hafter hfirst hmarks
      fun heq => absurd heq hsolidus
  have hall := hpasses.append h.passes ⟨c, hhead, hnext⟩
  refine ⟨⟨d, by simp [Expr.render, hfirst], hd⟩, ?_⟩
  rw [hfollows]
  simpa [Expr.render] using hall

theorem member (h : IsOperand t) (hnumber : t.endsInNumber = false) {field : String}
    (hfield : Lexeme.isName field.toList = true) : IsOperand (.member t field) := by
  obtain ⟨c, hhead, hc⟩ := h.head
  obtain ⟨d, ds, htext, hd⟩ := exists_name_cons hfield
  have hnext : endsPunctuator "." d = true := by
    have hnot : d ∉ Lexeme.extenders "." := Offside.Lexeme.not_mem_of_class hd (by decide)
    simpa [endsPunctuator] using hnot
  have hpoint : Passes (endsPunctuator ".") .operator .field ['.'] :=
    .of_cuts (Lexeme.cuts_punctuator (by decide) (by decide)) rfl rfl (by decide) (by decide)
  have hname := hpoint.append (passes_word hfield rfl) ⟨d, by rw [htext]; rfl, hnext⟩
  have hall := h.passes.append hname ⟨'.', rfl, by simp [Expr.follows, hnumber, isNamePart]⟩
  have htotal : Passes endsName .operand .operator (Expr.member t field).render.toList := by
    simpa [Expr.render] using hall
  exact ⟨⟨c, by simp [Expr.render, hhead], hc⟩,
    htotal.mono fun e he => (Bool.and_eq_true_iff.1 he).1⟩

/-- An operand before a closing bracket. -/
theorem closed (h : IsOperand t) {closing : String} (hclosing : closing = ")" ∨ closing = "]") :
    Passes anyChar .operand .operator (t.render.toList ++ closing.toList) := by
  rcases hclosing with rfl | rfl
  · exact h.passes.append (passes_bracket (by decide) rfl) ⟨')', rfl, follows_of_mem (by decide) t⟩
  · exact h.passes.append (passes_bracket (by decide) rfl) ⟨']', rfl, follows_of_mem (by decide) t⟩

/-- An operand with something in brackets behind it. -/
theorem access {text : List Char} (h : IsOperand t) {opening : String}
    (hopening : opening = "(" ∨ opening = "[")
    (htext : Passes anyChar .operand .operator text) :
    Passes anyChar .operand .operator (t.render.toList ++ (opening.toList ++ text)) := by
  rcases hopening with rfl | rfl
  · exact h.passes.append ((passes_bracket (by decide) rfl).append_any htext)
      ⟨'(', rfl, follows_of_mem (by decide) t⟩
  · exact h.passes.append ((passes_bracket (by decide) rfl).append_any htext)
      ⟨'[', rfl, follows_of_mem (by decide) t⟩

/-- Operands with commas between them, up to the bracket that closes them. -/
theorem listed {closing : String} (hclosing : closing = ")" ∨ closing = "]") {es : List Expr}
    (hes : ∀ e ∈ es, IsOperand e) :
    Passes anyChar .operand .operator
      ((", ".intercalate (Expr.renderAll es)).toList ++ closing.toList) := by
  match es with
  | [] =>
      rw [Expr.renderAll, String.intercalate_nil]
      rcases hclosing with rfl | rfl
      · exact passes_bracket (by decide) rfl
      · exact passes_bracket (by decide) rfl
  | [e] =>
      rw [Expr.renderAll, Expr.renderAll, String.intercalate_singleton]
      exact (hes e (by simp)).closed hclosing
  | e :: e' :: es =>
      obtain ⟨he, hes⟩ := List.forall_mem_cons.1 hes
      have hrest := listed hclosing hes
      have hcomma : Passes anyChar .operator .operand ",".toList := passes_bracket (by decide) rfl
      have hall := he.passes.append (hcomma.append_any ((passes_space .operand).append_any hrest))
        ⟨',', rfl, follows_of_mem (by decide) e⟩
      simpa [Expr.renderAll, String.intercalate_cons_cons] using hall

theorem call (h : IsOperand t) {args : List Expr} (hargs : ∀ e ∈ args, IsOperand e) :
    IsOperand (.call t args) := by
  obtain ⟨c, hhead, hc⟩ := h.head
  have hall := h.access (.inl rfl : "(" = "(" ∨ _) (listed (.inl rfl : ")" = ")" ∨ _) hargs)
  refine .of_any (by simp [Expr.render, hhead]) hc ?_
  simpa [Expr.render] using hall

theorem index (h : IsOperand t) (hr : IsOperand r) : IsOperand (.index t r) := by
  obtain ⟨c, hhead, hc⟩ := h.head
  have hall := h.access (.inr rfl : "[" = "(" ∨ _) (hr.closed (.inr rfl : "]" = ")" ∨ _))
  refine .of_any (by simp [Expr.render, hhead]) hc ?_
  simpa [Expr.render] using hall

theorem array {items : List Expr} (hitems : ∀ e ∈ items, IsOperand e) :
    IsOperand (.array items) := by
  have hopening : Passes anyChar .operand .operand "[".toList := passes_bracket (by decide) rfl
  have hall := hopening.append_any (listed (.inr rfl : "]" = ")" ∨ _) hitems)
  refine .of_any (by simp [Expr.render] : _ = some '[') (by decide) ?_
  simpa [Expr.render] using hall

theorem paren (h : IsOperand t) : IsOperand (.paren t) := by
  have hopening : Passes anyChar .operand .operand "(".toList := passes_bracket (by decide) rfl
  have hall := hopening.append_any (h.closed (.inl rfl : ")" = ")" ∨ _))
  refine .of_any (by simp [Expr.render] : _ = some '(') (by decide) ?_
  simpa [Expr.render] using hall

/-- A number above zero is cut as the literal that it is written with. -/
theorem finite (m : Nat) (k : Int) : IsOperand (.number (.finite false m k)) := by
  obtain ⟨whole, part, hliteral, -⟩ := Binary64.exists_isLiteral_toCode m k
  obtain ⟨c, cs, htext, hc⟩ := hliteral.exists_cons
  refine ⟨⟨c, by simp [Expr.render, htext], by simp [startsCode, hc]⟩, ?_⟩
  have hmarks : c ∉ ['\x7d', '\x60'] := Offside.Lexeme.not_mem_of_class hc (by decide)
  have hsolidus : c ≠ '/' := Offside.Lexeme.ne_of_class hc (by decide)
  have hpasses := Passes.of_cuts (Lexeme.cuts_literal hliteral)
    (rfl : Place.after? .operand _ = some .operator) (by rw [htext]; rfl : _ = some c) hmarks
    fun heq => absurd heq hsolidus
  refine hpasses.mono fun d hd => ?_
  simpa [Expr.follows, Expr.endsInNumber, Binary64.takesPoint, endsNumber] using hd

/-- The text of a number is an operand, also of one that no literal stands for. -/
theorem number (value : Binary64) : IsOperand (.number value) := by
  have hinfinite : IsOperand (.number (.infinite false)) :=
    .word (by decide : Lexeme.isName "inf".toList = true) (by decide) rfl
  -- A number below zero is written like the opposite of one above.
  cases value with
  | finite negative m k =>
      cases negative with
      | false => exact finite m k
      | true =>
          obtain ⟨whole, part, hliteral, -⟩ := Binary64.exists_isLiteral_toCode m k
          obtain ⟨c, cs, htext, hc⟩ := hliteral.exists_cons
          have hsign : (Expr.number (.finite false m k)).startsWithSign = false := by
            have hnot : c ∉ ['-', '+'] := Offside.Lexeme.not_mem_of_class hc (by decide)
            simpa [Expr.startsWithSign, Expr.render, htext] using hnot
          have hneg : IsOperand (.unary .neg (.number (.finite false m k))) :=
            (finite m k).unary (.inr hsign)
          refine hneg.congr ?_ ?_
          · simp [Expr.render, UnaryOp.symbol, Binary64.toCode_negative]
          · simp [Expr.endsInNumber, Binary64.takesPoint, Binary64.toCode_negative]
  | infinite negative =>
      cases negative with
      | false => exact hinfinite
      | true =>
          have hneg : IsOperand (.unary .neg (.number (.infinite false))) :=
            hinfinite.unary (.inr (by decide))
          exact hneg.congr rfl rfl
  | nan => exact .word (by decide : Lexeme.isName "NaN".toList = true) (by decide) rfl

end IsOperand

/-! ### Text pieces and placeholders -/

/-- A placeholder with this code is found wherever it stands. -/
def Closes (code : List Char) : Prop :=
  ∀ rest, code? .operand (code ++ '\x7d' :: rest) = some (code, rest)

theorem IsOperand.closes {t : Expr} (h : IsOperand t) : Closes t.render.toList := by
  intro rest
  rw [h.passes ('\x7d' :: rest) fun c hc => by cases hc; exact follows_of_mem (by decide) t,
    code?, if_pos rfl, if_pos rfl]
  simp [inFront]

/-- The text pieces are found as they were, whatever the code between them is. -/
theorem quasisAround?_templateBody {quasis codes : List String}
    (hlength : quasis.length = codes.length + 1) (rest : List Char) :
    quasisAround? codes ((templateBody quasis codes).toList ++ '\x60' :: rest) =
      some (quasis, rest) := by
  induction codes generalizing quasis with
  | nil =>
      obtain ⟨quasi, rfl⟩ := List.length_eq_one_iff.1 hlength
      have htext := Lexeme.text?_chunk true quasi rest
      have hbody : (templateBody [quasi] []).toList ++ '\x60' :: rest =
          escapeTemplateChars quasi.toList ++ ['\x60'] ++ rest := by
        simp [templateBody, escapeTemplate]
      rw [if_pos rfl] at htext
      rw [hbody, quasisAround?, htext, Option.bind_some]
      dsimp only
      rw [if_pos rfl, String.ofList_toList]
  | cons code codes ih =>
      obtain ⟨quasi, quasis, rfl⟩ := List.exists_cons_of_length_eq_add_one hlength
      have hlater := ih (Nat.succ.inj hlength)
      generalize hmore : (templateBody quasis codes).toList ++ '\x60' :: rest = more at hlater
      have htext := Lexeme.text?_chunk false quasi (code.toList ++ ['\x7d'] ++ more)
      have hbody : (templateBody (quasi :: quasis) (code :: codes)).toList ++ '\x60' :: rest =
          escapeTemplateChars quasi.toList ++ ['$', '\x7b'] ++
            (code.toList ++ ['\x7d'] ++ more) := by
        simp [templateBody, escapeTemplate, ← hmore]
      have hcode : (code.toList ++ ['\x7d'] ++ more).dropPrefix? (code.toList ++ ['\x7d']) =
          some more := List.dropPrefix?_append_of_beq more (by simp)
      rw [if_neg Bool.false_ne_true] at htext
      rw [hbody, quasisAround?, htext, Option.bind_some]
      dsimp only
      rw [if_neg Bool.false_ne_true, hcode, Option.bind_some, hlater, Option.map_some,
        String.ofList_toList]

/-- The code of placeholders is found, if the text pieces around it are. -/
theorem pieces?_of_quasisAround? {codes quasis : List String} {cs rest : List Char}
    (hcodes : ∀ code ∈ codes, Closes code.toList)
    (h : quasisAround? codes cs = some (quasis, rest)) :
    pieces? cs = some (⟨quasis, codes⟩, rest) := by
  induction codes generalizing cs quasis with
  | nil =>
      obtain ⟨⟨text, ends, more⟩, htext, hends⟩ := Option.bind_eq_some_iff.1 h
      rw [pieces?, htext, Option.bind_some]
      cases ends with
      | false => cases hends
      | true =>
          cases hends
          rfl
  | cons code codes ih =>
      obtain ⟨hcode, hcodes⟩ := List.forall_mem_cons.1 hcodes
      obtain ⟨⟨text, ends, more⟩, htext, hends⟩ := Option.bind_eq_some_iff.1 h
      have hlength := Lexeme.length_text?_le htext
      cases ends with
      | true => cases hends
      | false =>
          obtain ⟨later, hdrop, hmap⟩ := Option.bind_eq_some_iff.1 hends
          obtain ⟨⟨quasis, rest⟩, hlater, heq⟩ := Option.map_eq_some_iff.1 hmap
          cases heq
          obtain ⟨front, rfl, hfront⟩ := List.dropPrefix?_eq_some_iff.1 hdrop
          obtain rfl := eq_of_beq hfront
          have hfound : code? .operand (code.toList ++ ['\x7d'] ++ later) =
              some (code.toList, later) := by
            rw [List.append_assoc, List.singleton_append, hcode later]
          have hless : later.length < cs.length := by
            simp only [List.length_append, List.length_singleton] at hlength
            omega
          rw [pieces?, htext, Option.bind_some]
          dsimp only
          rw [if_neg Bool.false_ne_true, if_pos hlength, hfound, Option.bind_some]
          dsimp only
          rw [if_pos hless, ih hcodes hlater, Option.map_some, String.ofList_toList]

theorem pieces?_templateBody {codes quasis : List String}
    (hcodes : ∀ code ∈ codes, Closes code.toList) (hlength : quasis.length = codes.length + 1)
    (rest : List Char) :
    pieces? ((templateBody quasis codes).toList ++ '\x60' :: rest) =
      some (⟨quasis, codes⟩, rest) :=
  pieces?_of_quasisAround? hcodes (quasisAround?_templateBody hlength rest)

theorem closes_of_mem_renderAll {es : List Expr} (h : ∀ e ∈ es, IsOperand e) :
    ∀ code ∈ Expr.renderAll es, Closes code.toList := by
  induction es with
  | nil => simp [Expr.renderAll]
  | cons e es ih =>
      obtain ⟨he, hes⟩ := List.forall_mem_cons.1 h
      exact List.forall_mem_cons.2 ⟨he.closes, ih hes⟩

theorem length_renderAll (es : List Expr) : (Expr.renderAll es).length = es.length := by
  induction es with
  | nil => rfl
  | cons e es ih => exact congrArg Nat.succ ih

theorem IsOperand.template {es : List Expr} (hes : ∀ e ∈ es, IsOperand e) {quasis : List String}
    (hlength : quasis.length = es.length + 1) : IsOperand (.template quasis es) := by
  have hbody : (Expr.template quasis es).render.toList =
      '\x60' :: ((templateBody quasis (Expr.renderAll es)).toList ++ ['\x60']) := by
    simp [Expr.render]
  refine .of_any (by rw [hbody]; rfl : _ = some '\x60') (by decide) fun rest _ => ?_
  have hpieces := pieces?_templateBody (closes_of_mem_renderAll hes)
    (hlength.trans (congrArg Nat.succ (length_renderAll es).symm)) rest
  rw [hbody]
  refine code?_item (by decide) (by decide) ?_
  rw [item?, if_pos ⟨rfl, by decide⟩, List.append_assoc, List.singleton_append, hpieces]
  rfl

end Template

end Offside.Target
