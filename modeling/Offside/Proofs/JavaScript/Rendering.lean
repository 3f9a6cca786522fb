import Offside.Proofs.JavaScript.Reading

/-!
# Offside.Proofs.JavaScript.Rendering

The text of a tree **is cut into the lexemes of the tree**
(`Expr.isScanned_of_isSpelled`): no two of its pieces run together. Names have to
be names, numbers finite and without a sign; a sign stands before nothing that
starts with one, and the point before a field not directly after a number
(`Expr.IsSpelled`). So the text **is read as the tree** (`Expr.read_render`).
-/

open Offside.Target.Lexeme (Cuts Scans anyChar isNamePart isNameStart endsName endsNumber
  endsPunctuator extenders)

namespace Offside

/-- The text of a number is digits only, so that a point directly behind it would be a
part of it. -/
def Binary64.takesPoint : Binary64 → Bool
  | value@(.finite ..) => !value.toCode.toList.contains '.'
  | _ => false

namespace Target

namespace Expr

/-- The text of an expression ends in a number that a point would be a part of. -/
def endsInNumber : Expr → Bool
  | .number value => value.takesPoint
  | .binary _ _ right => endsInNumber right
  | .unary _ operand => endsInNumber operand
  | _ => false

/-- The characters that may follow the text of an expression. -/
def follows (t : Expr) (c : Char) : Bool := !isNamePart c && (c ≠ '.' || !t.endsInNumber)

mutual

/-- The pieces of an expression are written so that they can be told apart. -/
def IsSpelled : Expr → Prop
  | .name text => Lexeme.isName text.toList = true
  | .number value => ∃ m k, value = .finite false m k ∧ Binary64.IsCanonical m k
  | .string _ | .boolean _ | .null => True
  | .template quasis substitutions =>
    quasis.length = substitutions.length + 1 ∧ AreSpelled substitutions
  | .binary left _ right => IsSpelled left ∧ IsSpelled right
  | .unary op operand => (op = .not ∨ operand.startsWithSign = false) ∧ IsSpelled operand
  | .member value field =>
    value.endsInNumber = false ∧ Lexeme.isName field.toList = true ∧ IsSpelled value
  | .call callee args => IsSpelled callee ∧ AreSpelled args
  | .index target position => IsSpelled target ∧ IsSpelled position
  | .array items => AreSpelled items
  | .paren inner => IsSpelled inner

/-- All of the expressions are spelled so that their pieces can be told apart. -/
def AreSpelled : List Expr → Prop
  | [] => True
  | e :: es => IsSpelled e ∧ AreSpelled es

end

end Expr

/-! ### Pieces -/

theorem cuts_bracket {symbol : String} (h : symbol ∈ ["(", ")", "[", "]", ",", ";"]) :
    Cuts anyChar symbol.toList (.punctuator symbol) := by
  have hall : ∀ s ∈ ["(", ")", "[", "]", ",", ";"], s.toList ∈ Lexeme.punctuators ∧
      s.toList ≠ ['\x7d'] ∧ extenders s = [] := by decide
  obtain ⟨hmem, hne, hends⟩ := hall symbol h
  refine (Lexeme.cuts_punctuator hmem hne).mono fun c _ => ?_
  simp [endsPunctuator, hends]

theorem scans_bracket {symbol : String} (h : symbol ∈ ["(", ")", "[", "]", ",", ";"]) :
    Scans anyChar symbol.toList [.punctuator symbol] :=
  (cuts_bracket h).scans

theorem scans_spaced {symbol : String} (hmem : symbol.toList ∈ Lexeme.punctuators)
    (hne : symbol.toList ≠ ['\x7d']) (hspace : endsPunctuator symbol ' ' = true) :
    Scans anyChar (" " ++ symbol ++ " ").toList [.punctuator symbol] := by
  have hsymbol :=
    (Lexeme.cuts_punctuator hmem hne).scans.append Lexeme.scans_space ⟨' ', rfl, hspace⟩
  simpa using Lexeme.scans_space.append_any hsymbol

theorem scans_operator (op : BinaryOp) :
    Scans anyChar (" " ++ op.symbol ++ " ").toList [.punctuator op.symbol] := by
  have hmem : op.symbol.toList ∈ Lexeme.punctuators ∧ op.symbol.toList ≠ ['\x7d'] ∧
      endsPunctuator op.symbol ' ' = true := by
    cases op <;> decide
  exact scans_spaced hmem.1 hmem.2.1 hmem.2.2

/-- A character starts the text of an expression. -/
def startsCode (c : Char) : Bool :=
  isNameStart c || c.isDigit || ['"', '\x60', '-', '+', '!', '(', '['].contains c

theorem exists_name_cons {text : List Char} (h : Lexeme.isName text = true) :
    ∃ c cs, text = c :: cs ∧ isNameStart c = true := by
  cases text with
  | nil => cases h
  | cons c cs => exact ⟨c, cs, rfl, (Bool.and_eq_true_iff.1 h).1⟩

/-- The text of an expression starts like one. -/
theorem Expr.head_render : (t : Expr) → t.IsSpelled →
    ∃ c, t.render.toList.head? = some c ∧ startsCode c = true
  | .name text, h => by
      obtain ⟨c, cs, htext, hc⟩ := exists_name_cons h
      exact ⟨c, by simp [render, htext], by simp [startsCode, hc]⟩
  | .number value, h => by
      obtain ⟨m, k, rfl, hcanonical⟩ := h
      obtain ⟨whole, part, hliteral, -⟩ := Binary64.exists_literal_toCode hcanonical
      obtain ⟨c, cs, htext, hc⟩ := hliteral.exists_cons
      exact ⟨c, by simp [render, htext], by simp [startsCode, hc]⟩
  | .string value, _ => ⟨'"', by simp [render, Text.quote], by decide⟩
  | .boolean true, _ => ⟨'t', rfl, by decide⟩
  | .boolean false, _ => ⟨'f', rfl, by decide⟩
  | .null, _ => ⟨'n', rfl, by decide⟩
  | .template quasis substitutions, _ => ⟨'\x60', by simp [render], by decide⟩
  | .binary left op right, h => by
      obtain ⟨c, htext, hc⟩ := head_render left h.1
      exact ⟨c, by simp [render, htext], hc⟩
  | .unary .neg operand, _ => ⟨'-', by simp [render, UnaryOp.symbol], by decide⟩
  | .unary .pos operand, _ => ⟨'+', by simp [render, UnaryOp.symbol], by decide⟩
  | .unary .not operand, _ => ⟨'!', by simp [render, UnaryOp.symbol], by decide⟩
  | .member value field, h => by
      obtain ⟨c, htext, hc⟩ := head_render value h.2.2
      exact ⟨c, by simp [render, htext], hc⟩
  | .call callee args, h => by
      obtain ⟨c, htext, hc⟩ := head_render callee h.1
      exact ⟨c, by simp [render, htext], hc⟩
  | .index target position, h => by
      obtain ⟨c, htext, hc⟩ := head_render target h.1
      exact ⟨c, by simp [render, htext], hc⟩
  | .array items, _ => ⟨'[', by simp [render], by decide⟩
  | .paren inner, _ => ⟨'(', by simp [render], by decide⟩

/-! ### Expressions -/

/-- The text of an expression is cut into the lexemes of the expression. -/
def Expr.IsScanned (t : Expr) : Prop := Scans t.follows t.render.toList t.lexemes

theorem follows_of_mem {c : Char} (hc : c ∈ [' ', '(', ')', '[', ']', ',', ';', '\x7d'])
    (t : Expr) : t.follows c = true := by
  have hall : [' ', '(', ')', '[', ']', ',', ';', '\x7d'].all
      (fun c => !isNamePart c && c ≠ '.') = true := by decide
  have hclass := Bool.and_eq_true_iff.1 (List.all_eq_true.1 hall c hc)
  rw [Expr.follows, hclass.1, Bool.true_and, Bool.or_eq_true]
  exact .inl hclass.2

namespace Expr

theorem follows_congr {t t' : Expr} (h : t.endsInNumber = t'.endsInNumber) :
    t.follows = t'.follows := by
  funext c
  rw [follows, follows, h]

namespace IsScanned

variable {l r t : Expr}

/-- An expression that no character could make longer. -/
theorem of_any (h : Scans anyChar t.render.toList t.lexemes) : t.IsScanned :=
  h.mono fun _ _ => rfl

theorem of_name {text : String} (h : Lexeme.isName text.toList = true)
    (htext : t.render = text) (hlexemes : t.lexemes = [.name text]) : t.IsScanned := by
  have hname := (Lexeme.cuts_name h).scans
  rw [String.ofList_toList] at hname
  rw [IsScanned, htext, hlexemes]
  exact hname.mono fun c hc => (Bool.and_eq_true_iff.1 hc).1

theorem of_number {m : Nat} {k : Int} (h : Binary64.IsCanonical m k) :
    (Expr.number (.finite false m k)).IsScanned := by
  refine (Lexeme.cuts_number h).scans.mono fun c hc => ?_
  simpa [follows, endsInNumber, Binary64.takesPoint, endsNumber] using hc

theorem of_binary {op : BinaryOp} (hl : l.IsScanned) (hr : r.IsScanned) :
    (Expr.binary l op r).IsScanned := by
  have hfollows : (Expr.binary l op r).follows = r.follows := follows_congr rfl
  have hright := (scans_operator op).append_any hr
  have hall := hl.append hright ⟨' ', by simp, follows_of_mem (by decide) l⟩
  rw [IsScanned, hfollows]
  simpa [render, lexemes] using hall

/-- No operator and its operand run together, signs apart. -/
theorem endsPunctuator_unary {op : UnaryOp} {c : Char} (hc : startsCode c = true)
    (hsign : op = .not ∨ (c ≠ '-' ∧ c ≠ '+')) : endsPunctuator op.symbol c = true := by
  rcases hsign with rfl | ⟨hminus, hplus⟩
  · have hnot : c ∉ extenders UnaryOp.not.symbol := Lexeme.not_mem_of_class hc (by decide)
    simpa [endsPunctuator] using hnot
  · have hclass : (startsCode c && c ≠ '-' && c ≠ '+') = true := by simp [hc, hminus, hplus]
    have hnot : c ∉ extenders op.symbol :=
      Lexeme.not_mem_of_class (p := fun c => startsCode c && c ≠ '-' && c ≠ '+') hclass
        (by cases op <;> decide)
    simpa [endsPunctuator] using hnot

theorem of_unary {op : UnaryOp} (ht : t.IsScanned) (hspelled : t.IsSpelled)
    (hsign : op = .not ∨ t.startsWithSign = false) : (Expr.unary op t).IsScanned := by
  obtain ⟨c, hhead, hc⟩ := head_render t hspelled
  have hfollows : (Expr.unary op t).follows = t.follows := follows_congr rfl
  have hsymbol : op.symbol.toList ∈ Lexeme.punctuators ∧ op.symbol.toList ≠ ['\x7d'] := by
    cases op <;> decide
  have hnext : endsPunctuator op.symbol c = true := by
    refine endsPunctuator_unary hc (hsign.imp_right fun hstarts => ?_)
    obtain ⟨cs, htext⟩ := List.head?_eq_some_iff.1 hhead
    simpa [startsWithSign, htext] using hstarts
  have hall := (Lexeme.cuts_punctuator hsymbol.1 hsymbol.2).scans.append ht ⟨c, hhead, hnext⟩
  rw [IsScanned, hfollows]
  simpa [render, lexemes] using hall

theorem of_member {field : String} (ht : t.IsScanned) (hnumber : t.endsInNumber = false)
    (hfield : Lexeme.isName field.toList = true) : (Expr.member t field).IsScanned := by
  obtain ⟨c, cs, htext, hc⟩ := exists_name_cons hfield
  have hnext : endsPunctuator "." c = true := by
    have hnot : c ∉ extenders "." := Lexeme.not_mem_of_class hc (by decide)
    simpa [endsPunctuator] using hnot
  have hpoint : Scans (endsPunctuator ".") ['.'] [.punctuator "."] :=
    (Lexeme.cuts_punctuator (by decide) (by decide)).scans
  have hname := hpoint.append (Lexeme.cuts_name hfield).scans ⟨c, by rw [htext]; rfl, hnext⟩
  have hall := ht.append hname ⟨'.', rfl, by simp [follows, hnumber, isNamePart]⟩
  have htotal : Scans endsName (Expr.member t field).render.toList
      (Expr.member t field).lexemes := by
    simpa [render, lexemes] using hall
  exact htotal.mono fun c hc => (Bool.and_eq_true_iff.1 hc).1

/-- An expression with something in brackets behind it. -/
theorem access {text : List Char} {ls : List Lexeme} (ht : t.IsScanned) {opening : String}
    (hopening : opening = "(" ∨ opening = "[") (h : Scans anyChar text ls) :
    Scans anyChar (t.render.toList ++ (opening.toList ++ text))
      (t.lexemes ++ .punctuator opening :: ls) := by
  rcases hopening with rfl | rfl
  · exact ht.append ((scans_bracket (by decide)).append_any h)
      ⟨'(', rfl, follows_of_mem (by decide) t⟩
  · exact ht.append ((scans_bracket (by decide)).append_any h)
      ⟨'[', rfl, follows_of_mem (by decide) t⟩

/-- An expression before a closing bracket. -/
theorem closed (ht : t.IsScanned) {closing : String} (hclosing : closing = ")" ∨ closing = "]") :
    Scans anyChar (t.render.toList ++ closing.toList) (t.lexemes ++ [.punctuator closing]) := by
  rcases hclosing with rfl | rfl
  · exact ht.append (scans_bracket (by decide)) ⟨')', rfl, follows_of_mem (by decide) t⟩
  · exact ht.append (scans_bracket (by decide)) ⟨']', rfl, follows_of_mem (by decide) t⟩

end IsScanned

/-- Expressions with commas between them, up to the bracket that closes them. -/
theorem scans_listed {closing : String} (hclosing : closing = ")" ∨ closing = "]")
    {es : List Expr} (hes : ∀ e ∈ es, e.IsScanned) :
    Scans anyChar ((", ".intercalate (renderAll es)).toList ++ closing.toList)
      (listed closing (lexemesAll es)) := by
  match es with
  | [] =>
      rw [renderAll, lexemesAll, String.intercalate_nil, listed]
      refine scans_bracket ?_
      rcases hclosing with rfl | rfl <;> decide
  | [e] =>
      rw [renderAll, renderAll, String.intercalate_singleton]
      exact (hes e (by simp)).closed hclosing
  | e :: e' :: es =>
      obtain ⟨he, hes⟩ := List.forall_mem_cons.1 hes
      have hrest := scans_listed hclosing hes
      have hcomma : Scans anyChar ",".toList [.punctuator ","] := scans_bracket (by decide)
      have hall := he.append (hcomma.append_any (Lexeme.scans_space.append_any hrest))
        ⟨',', rfl, follows_of_mem (by decide) e⟩
      simpa [renderAll, String.intercalate_cons_cons, lexemesAll, listed, moreListed] using hall

/-- The text of a template literal, from one of its pieces to its end. -/
theorem scan_template {es : List Expr} (hes : ∀ e ∈ es, e.IsScanned) (begins : Bool)
    {quasis : List String} (h : quasis.length = es.length + 1) (depth : Nat) (rest : List Char) :
    Lexeme.scan (if begins then depth else depth + 1)
        ((if begins then '\x60' else '\x7d') ::
          ((templateBody quasis (renderAll es)).toList ++ '\x60' :: rest)) =
      (Lexeme.scan depth rest).map (chunks begins quasis (lexemesAll es) ++ ·) := by
  induction es generalizing begins quasis with
  | nil =>
      obtain ⟨quasi, rfl⟩ := List.length_eq_one_iff.1 h
      have hchunk := Lexeme.scan_chunk begins true quasi depth rest
      simpa [Lexeme.chunkText, renderAll, lexemesAll, templateBody, escapeTemplate, chunks]
        using hchunk
  | cons e es ih =>
      obtain ⟨he, hes⟩ := List.forall_mem_cons.1 hes
      obtain ⟨quasi, quasis, rfl⟩ := List.exists_cons_of_length_eq_add_one h
      have hlater := ih hes false (Nat.succ.inj h)
      rw [if_neg Bool.false_ne_true, if_neg Bool.false_ne_true] at hlater
      -- After the first piece come the placeholder and the rest of the literal.
      generalize hafter : '\x7d' :: ((templateBody quasis (renderAll es)).toList ++
        '\x60' :: rest) = after at hlater
      have hcode := he (depth + 1) after fun c hc => by
        rw [← hafter] at hc
        cases hc
        exact follows_of_mem (by decide) e
      have hchunk := Lexeme.scan_chunk begins false quasi depth (e.render.toList ++ after)
      rw [if_neg Bool.false_ne_true, hcode, hlater, Option.map_map, Option.map_map] at hchunk
      simpa [Lexeme.chunkText, renderAll, lexemesAll, templateBody, escapeTemplate, chunks,
        ← hafter, Function.comp_def] using hchunk

mutual

/-- The text of an expression is cut into the lexemes of the expression. -/
theorem isScanned_of_isSpelled : (t : Expr) → t.IsSpelled → t.IsScanned
  | .name text, h => .of_name h rfl rfl
  | .number value, h => by
      obtain ⟨m, k, rfl, hcanonical⟩ := h
      exact .of_number hcanonical
  | .string value, _ => .of_any (Lexeme.cuts_string value).scans
  | .boolean true, _ => .of_name (by decide) rfl rfl
  | .boolean false, _ => .of_name (by decide) rfl rfl
  | .null, _ => .of_name (by decide) rfl rfl
  | .template quasis es, h => by
      refine .of_any fun depth rest _ => ?_
      have htemplate := scan_template (areScanned_of_areSpelled es h.2) true h.1 depth rest
      simpa [render, lexemes] using htemplate
  | .binary left op right, h =>
      (isScanned_of_isSpelled left h.1).of_binary (isScanned_of_isSpelled right h.2)
  | .unary op operand, h => (isScanned_of_isSpelled operand h.2).of_unary h.2 h.1
  | .member value field, h => (isScanned_of_isSpelled value h.2.2).of_member h.1 h.2.1
  | .call callee args, h => by
      have hargs := scans_listed (.inl rfl : ")" = ")" ∨ _) (areScanned_of_areSpelled args h.2)
      have hall := (isScanned_of_isSpelled callee h.1).access (.inl rfl : "(" = "(" ∨ _) hargs
      refine .of_any ?_
      simpa [render, lexemes] using hall
  | .index target position, h => by
      have hposition := (isScanned_of_isSpelled position h.2).closed (.inr rfl : "]" = ")" ∨ _)
      have hall := (isScanned_of_isSpelled target h.1).access (.inr rfl : "[" = "(" ∨ _) hposition
      refine .of_any ?_
      simpa [render, lexemes] using hall
  | .array items, h => by
      have hopening : Scans anyChar "[".toList [.punctuator "["] := scans_bracket (by decide)
      have hall := hopening.append_any
        (scans_listed (.inr rfl : "]" = ")" ∨ _) (areScanned_of_areSpelled items h))
      refine .of_any ?_
      simpa [render, lexemes] using hall
  | .paren inner, h => by
      have hopening : Scans anyChar "(".toList [.punctuator "("] := scans_bracket (by decide)
      have hall := hopening.append_any
        ((isScanned_of_isSpelled inner h).closed (.inl rfl : ")" = ")" ∨ _))
      refine .of_any ?_
      simpa [render, lexemes] using hall

theorem areScanned_of_areSpelled : (es : List Expr) → AreSpelled es → ∀ e ∈ es, e.IsScanned
  | [], _ => by simp
  | e :: es, h =>
      List.forall_mem_cons.2 ⟨isScanned_of_isSpelled e h.1, areScanned_of_areSpelled es h.2⟩

end

/-- The text of a tree is read as the tree. -/
theorem read_render {t : Expr} (hspelled : t.IsSpelled) (hordered : t.isOrdered = true) :
    read t.render = some t := by
  have hscan := isScanned_of_isSpelled t hspelled 0 [] (by simp)
  have hread := (isRead_of_isOrdered t hordered).whole ends_nil
  rw [List.append_nil] at hscan hread
  rw [read, hscan, Lexeme.scan_nil, Option.map_some, List.append_nil, Option.bind_some, hread]

end Expr

end Target

end Offside
