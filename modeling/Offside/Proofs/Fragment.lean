import Offside.Proofs.Source

/-!
# Offside.Proofs.Fragment

The source of a program is cut into the lexemes that it was written with. Main
statement: `Program.scan_source`.

What a writer puts together are **fragments**: lexemes that are read back before
every text that closes them. Expressions are fragments, and so are lines; each
rule of this module says that one way of writing fragments side by side gives a
fragment again.
-/

namespace Offside

/-! ### Fragments

Lexemes are read back from their spelling if none of them runs into the next one. The
rules below need to know two things of each part: which texts may come after it
(`Closes`) and what it starts with (`startsOperand`).
-/

namespace Lexeme

/-- The lexemes that expressions and lines start with. -/
def startsOperand : Lexeme → Bool
  | .word w => isWord w
  | .number cs => isNumeral cs
  | .quoted [] quote _ => quote = '"' || quote = '\''
  | .operator symbol => symbol = ['-'] || symbol = ['+']
  | .delimiter c => c = '(' || c = '['
  | _ => false

/-- The characters that run together with a blank or an operator before them. -/
def gluing : List Char := [' ', '\t', '\r'] ++ extenders

/-- A lexeme that starts an operand starts with a character that nothing before it
takes in. -/
theorem exists_spelling_of_startsOperand {l : Lexeme} (h : l.startsOperand = true) :
    ∃ c cs, l.spelling = c :: cs ∧ c ∉ gluing := by
  match l with
  | .word [] => cases h
  | .word (c :: cs) =>
      have hc : isWordStart c = true := (Bool.and_eq_true_iff.1 h).1
      exact ⟨c, cs, rfl, not_mem_of_class hc (by decide)⟩
  | .number cs =>
      obtain ⟨c, whole, part, rfl, hc, -⟩ := exists_digits_of_isNumeral h
      exact ⟨c, whole ++ part, rfl, not_mem_of_class hc (by decide)⟩
  | .quoted [] quote body =>
      simp only [startsOperand, Bool.or_eq_true, decide_eq_true_eq] at h
      rcases h with rfl | rfl <;> exact ⟨_, body ++ [_], rfl, by decide⟩
  | .operator symbol =>
      simp only [startsOperand, Bool.or_eq_true, decide_eq_true_eq] at h
      rcases h with rfl | rfl <;> exact ⟨_, [], rfl, by decide⟩
  | .delimiter c =>
      simp only [startsOperand, Bool.or_eq_true, decide_eq_true_eq] at h
      rcases h with rfl | rfl <;> exact ⟨_, [], rfl, by decide⟩

/-- Lexemes that are read back before every text that closes them. -/
structure Filling (ls : List Lexeme) : Prop where
  stands : ∀ rest, Closes rest → Stand ls rest
  newline : .newline ∉ ls

/-- Lexemes that are read back before every text that closes them, and that can
come after an operator or a blank. -/
structure Fragment (ls : List Lexeme) : Prop extends Filling ls where
  starts : ∃ l ms, ls = l :: ms ∧ l.startsOperand = true

/-- A fragment starts with a character that nothing before it takes in. -/
theorem Fragment.head_not_mem {ls : List Lexeme} (h : Fragment ls) (rest : List Char) :
    ∀ c ∈ (spellAll ls ++ rest).head?, c ∉ gluing := by
  obtain ⟨l, ms, rfl, hl⟩ := h.starts
  obtain ⟨c, cs, hspell, hc⟩ := exists_spelling_of_startsOperand hl
  rw [spellAll_cons, hspell]
  rintro _ ⟨⟩
  exact hc

/-- A fragment does not lengthen a run of blanks before it. -/
theorem Fragment.isBlank_eq_false {ls : List Lexeme} (h : Fragment ls) (rest : List Char) :
    ∀ c ∈ (spellAll ls ++ rest).head?, isBlank c = false := by
  intro c hc
  refine Bool.eq_false_iff.2 fun hblank => h.head_not_mem rest c hc ?_
  simp only [isBlank, Bool.or_eq_true, decide_eq_true_eq] at hblank
  rcases hblank with (rfl | rfl) | rfl <;> decide

/-- A blank is read back before text that is not blank. -/
theorem stand_space {rest : List Char} (h : ∀ c ∈ rest.head?, isBlank c = false) :
    Stand [space] rest :=
  stand_blanks (List.cons_ne_nil ' ' []) (by simp [isBlank]) h

theorem filling_nil : Filling [] := ⟨fun rest _ => stand_nil rest, List.not_mem_nil⟩

/-- A word alone is a fragment. -/
theorem fragment_word {w : List Char} (h : isWord w = true) : Fragment [.word w] :=
  ⟨⟨fun _ hrest => stand_word h hrest, by simp⟩, _, [], rfl, h⟩

theorem fragment_number {cs : List Char} (h : isNumeral cs = true) : Fragment [.number cs] :=
  ⟨⟨fun _ hrest => stand_number h hrest, by simp⟩, _, [], rfl, h⟩

theorem fragment_quoted {quote : Char} (hquote : quote = '"' ∨ quote = '\'') (cs : List Char) :
    Fragment [.quoted [] quote (Text.literalChars quote cs)] := by
  have hbody := Text.isBody_literalChars hquote cs
  refine ⟨⟨fun rest _ => stand_quoted (.inl rfl) hquote hbody rest, by simp⟩, _, [], rfl, ?_⟩
  simpa [startsOperand] using hquote

/-- An operator before its operand. -/
theorem Fragment.signed {ls : List Lexeme} {c : Char} (hc : c = '-' ∨ c = '+') (h : Fragment ls) :
    Fragment (.operator [c] :: ls) := by
  have hsymbol : [c] ∈ operators := by rcases hc with rfl | rfl <;> decide
  refine ⟨⟨fun rest hrest => ?_, by simpa using h.newline⟩, _, ls, rfl, ?_⟩
  · refine .cons (stand_operator hsymbol fun d hd hmem => ?_) (h.stands rest hrest)
    exact h.head_not_mem rest d hd (List.mem_append_right _ hmem)
  · rcases hc with rfl | rfl <;> rfl

/-- A blank before a fragment. -/
theorem Fragment.spaced {ls : List Lexeme} (h : Fragment ls) : Filling (space :: ls) := by
  refine ⟨fun rest hrest => ?_, by simpa [space] using h.newline⟩
  exact .cons (stand_space (h.isBlank_eq_false rest)) (h.stands rest hrest)

/-- A delimiter is cut before anything. -/
theorem Filling.delimited {c : Char} {ls : List Lexeme} (hc : c ∈ delimiters) (h : Filling ls) :
    Filling (.delimiter c :: ls) := by
  refine ⟨fun rest hrest => ?_, by simpa using h.newline⟩
  exact .cons (stand_delimiter hc _) (h.stands rest hrest)

/-- Lexemes go on with lexemes that close them. -/
theorem Filling.append {ls ms : List Lexeme} (hls : Filling ls) (hms : Filling ms)
    (hclose : ∀ rest, Closes rest → Closes (spellAll ms ++ rest)) : Filling (ls ++ ms) := by
  refine ⟨fun rest hrest => ?_, ?_⟩
  · exact .append (hls.stands _ (hclose rest hrest)) (hms.stands rest hrest)
  · rw [List.mem_append, not_or]
    exact ⟨hls.newline, hms.newline⟩

/-- A fragment that goes on is still one: what it starts with is the same. -/
theorem Fragment.append {ls ms : List Lexeme} (hls : Fragment ls) (hms : Filling ms)
    (hclose : ∀ rest, Closes rest → Closes (spellAll ms ++ rest)) : Fragment (ls ++ ms) := by
  obtain ⟨l, ls, rfl, hl⟩ := hls.starts
  exact ⟨hls.toFilling.append hms hclose, l, ls ++ ms, rfl, hl⟩

/-- Lexemes up to a delimiter that closes them. -/
theorem Filling.closed {c : Char} {ls : List Lexeme} (hc : c ∈ delimiters) (hclose : c ∈ closers)
    (h : Filling ls) : Filling (ls ++ [.delimiter c]) :=
  h.append (filling_nil.delimited hc) fun rest _ => closes_of_mem hclose rest

/-- Lexemes in brackets start an expression. -/
theorem Filling.opened {c : Char} {ls : List Lexeme} (hc : c = '(' ∨ c = '[') (h : Filling ls) :
    Fragment (.delimiter c :: ls) := by
  have hdelimiter : c ∈ delimiters := by rcases hc with rfl | rfl <;> decide
  exact ⟨h.delimited hdelimiter, _, ls, rfl, by simpa [startsOperand] using hc⟩

/-- A keyword before what it is about. -/
theorem Fragment.keyword {w : List Char} {ls : List Lexeme} (hw : isWord w = true)
    (h : Fragment ls) : Fragment (.word w :: space :: ls) :=
  (fragment_word hw).append h.spaced fun _ _ => closes_of_mem (by decide) _

/-- A lexeme that can stand between blanks. -/
def isBetween : Lexeme → Bool
  | .operator symbol => operators.contains symbol
  | .word w => isWord w
  | _ => false

/-- An operator, or a word like one, before its right operand. -/
theorem Fragment.between {l : Lexeme} {ls : List Lexeme} (hl : l.isBetween = true)
    (h : Fragment ls) : Filling (space :: l :: space :: ls) := by
  cases l with
  | operator symbol =>
      have hsymbol : symbol ∈ operators := List.contains_iff_mem.1 hl
      have hstart : ∀ s ∈ operators, s.head?.any (fun c => !isBlank c) = true := by decide
      refine ⟨fun rest hrest => .cons (stand_space ?_) (.cons ?_ (h.spaced.stands rest hrest)), ?_⟩
      · have hblank := hstart symbol hsymbol
        cases symbol with
        | nil => cases hblank
        | cons c cs =>
            rintro _ ⟨⟩
            simpa using hblank
      · refine stand_operator hsymbol ?_
        rintro _ ⟨⟩
        decide
      · simpa [space] using h.newline
  | word w => exact (h.keyword hl).spaced
  | _ => cases hl

/-- An attribute. -/
theorem filling_attr {w : List Char} (hw : isWord w = true) : Filling [.dot, .word w] :=
  ⟨fun rest hrest => .cons (stand_dot _) (stand_word hw hrest), by simp⟩

/-- An attribute closes what is before it: the dot is not the point of a number,
since a letter follows. -/
theorem closes_attr {w : List Char} (hw : isWord w = true) (rest : List Char) :
    Closes (spellAll [.dot, .word w] ++ rest) := by
  cases w with
  | nil => cases hw
  | cons c cs => exact closes_dot (Bool.and_eq_true_iff.1 hw).1 _

/-- Names are words. -/
theorem isWord_of_isName {name : String} (h : isName name = true) : isWord name.toList = true :=
  (Bool.and_eq_true_iff.1 h).1

theorem isWord_of_mem_keywords {w : List Char} (h : w ∈ keywords) : isWord w = true :=
  List.all_eq_true.1 (show keywords.all isWord = true by decide) w h

/-- Lexemes that separate names. -/
structure IsSeparator (separator : List Lexeme) : Prop where
  filling : ∀ w, isWord w = true → Filling (separator ++ [.word w])
  closes : ∀ w rest, isWord w = true → Closes (spellAll (separator ++ [.word w]) ++ rest)

/-- Parameters are separated by a comma and a blank. -/
theorem isSeparator_comma : IsSeparator [.delimiter ',', space] where
  filling _ hw := (fragment_word hw).spaced.delimited (by decide)
  closes _ _ _ := closes_of_mem (by decide) _

/-- The parts of a module path are separated by a dot. -/
theorem isSeparator_dot : IsSeparator [.dot] where
  filling _ hw := filling_attr hw
  closes _ rest hw := closes_attr hw rest

/-- Names with a separator before each of them, and that they close what is before
them. -/
theorem IsSeparator.more {separator : List Lexeme} (hseparator : IsSeparator separator)
    {names : List String} (hnames : ∀ name ∈ names, isName name = true) :
    Filling (names.flatMap fun name => separator ++ [.word name.toList]) ∧
      ∀ rest, Closes rest →
        Closes (spellAll (names.flatMap fun name => separator ++ [.word name.toList]) ++ rest) := by
  induction names with
  | nil => exact ⟨filling_nil, fun _ hrest => hrest⟩
  | cons name names ih =>
      obtain ⟨hname, hnames⟩ := List.forall_mem_cons.1 hnames
      obtain ⟨hfilling, hclose⟩ := ih hnames
      have hword := isWord_of_isName hname
      refine ⟨(hseparator.filling _ hword).append hfilling hclose, fun rest _ => ?_⟩
      rw [List.flatMap_cons, spellAll_append, List.append_assoc]
      exact hseparator.closes _ _ hword

/-- At least one name makes a fragment. -/
theorem IsSeparator.fragment {separator : List Lexeme} (hseparator : IsSeparator separator)
    {name : String} {names : List String} (h : ∀ x ∈ name :: names, isName x = true) :
    Fragment (ofNames separator (name :: names)) := by
  obtain ⟨hname, hnames⟩ := List.forall_mem_cons.1 h
  obtain ⟨hfilling, hclose⟩ := hseparator.more hnames
  exact (fragment_word (isWord_of_isName hname)).append hfilling hclose

theorem IsSeparator.ofNames {separator : List Lexeme} (hseparator : IsSeparator separator)
    {names : List String} (h : ∀ x ∈ names, isName x = true) :
    Filling (ofNames separator names) := by
  cases names with
  | nil => exact filling_nil
  | cons name names => exact (hseparator.fragment h).toFilling

end Lexeme

open Lexeme

/-! ### Expressions -/

/-- A well-formed literal is a fragment in the style that it is well-formed in. -/
theorem Literal.fragment_lexeme {style : SourceStyle} {value : Literal}
    (h : (Expr.literal value).isWellFormed style = true) : Fragment [value.lexeme style] := by
  match value with
  | .number value => exact fragment_number (Bool.and_eq_true_iff.1 h).1
  | .string value => exact fragment_quoted style.isQuote value.toList
  | .boolean true => exact fragment_word (by decide)
  | .boolean false => exact fragment_word (by decide)
  | .null => exact fragment_word (by decide)

theorem BinaryOp.isBetween_lexeme (op : BinaryOp) : op.lexeme.isBetween = true := by
  cases op <;> decide

theorem UnaryOp.fragment_lexemes (op : UnaryOp) {ls : List Lexeme} (h : Fragment ls) :
    Fragment (op.lexemes ++ ls) := by
  match op with
  | .neg => exact h.signed (.inl rfl)
  | .pos => exact h.signed (.inr rfl)
  | .not => exact h.keyword (by decide)

namespace Expr

/-- The expressions after the first one close it, by their comma. -/
theorem closes_moreLexemes (style : SourceStyle) (es : List Expr) {rest : List Char}
    (hrest : Closes rest) : Closes (spellAll (moreLexemes style es) ++ rest) := by
  cases es with
  | nil => exact hrest
  | cons e es => rw [moreLexemes]; exact closes_of_mem (by decide) _

mutual

/-- **A well-formed expression is a fragment.** By induction on the expression: each
construct puts fragments side by side in one of the ways above. -/
theorem fragment_lexemes {style : SourceStyle} (e : Expr) (h : e.isWellFormed style = true) :
    Fragment (e.lexemes style) := by
  match e with
  | .ident name =>
      rw [lexemes]
      rw [isWellFormed] at h
      exact fragment_word (isWord_of_isName h)
  | .literal value => rw [lexemes]; exact Literal.fragment_lexeme h
  | .fstring _ _ => rw [isWellFormed] at h; cases h
  | .binary left op right _ =>
      simp only [isWellFormed, Bool.and_eq_true] at h
      obtain ⟨⟨hleft, -⟩, hright, -⟩ := h
      have hoperand := (fragment_lexemes right hright).between op.isBetween_lexeme
      rw [lexemes]
      exact (fragment_lexemes left hleft).append hoperand fun _ _ => closes_of_mem (by decide) _
  | .unary op operand =>
      simp only [isWellFormed, Bool.and_eq_true] at h
      rw [lexemes]
      exact op.fragment_lexemes (fragment_lexemes operand h.1)
  | .attr value name =>
      simp only [isWellFormed, Bool.and_eq_true] at h
      obtain ⟨⟨hvalue, -⟩, hname⟩ := h
      have hword := isWord_of_isName hname
      rw [lexemes]
      exact (fragment_lexemes value hvalue).append (filling_attr hword) fun rest _ =>
        closes_attr hword rest
  | .call callee args =>
      simp only [isWellFormed, Bool.and_eq_true] at h
      obtain ⟨⟨hcallee, -⟩, hargs⟩ := h
      have hclosed := ((filling_lexemesAll args hargs).closed (c := ')') (by decide) (by decide))
      rw [lexemes]
      exact (fragment_lexemes callee hcallee).append (hclosed.delimited (by decide)) fun _ _ =>
        closes_of_mem (by decide) _
  | .index target position =>
      simp only [isWellFormed, Bool.and_eq_true] at h
      obtain ⟨⟨htarget, -⟩, hposition⟩ := h
      have hclosed := ((fragment_lexemes position hposition).toFilling.closed (c := ']')
        (by decide) (by decide))
      rw [lexemes]
      exact (fragment_lexemes target htarget).append (hclosed.delimited (by decide)) fun _ _ =>
        closes_of_mem (by decide) _
  | .list items =>
      rw [isWellFormed] at h
      rw [lexemes]
      exact ((filling_lexemesAll items h).closed (by decide) (by decide)).opened (.inr rfl)
  | .group inner =>
      rw [isWellFormed] at h
      rw [lexemes]
      exact ((fragment_lexemes inner h).toFilling.closed (by decide) (by decide)).opened (.inl rfl)

theorem filling_lexemesAll {style : SourceStyle} (es : List Expr)
    (h : areWellFormed style es = true) : Filling (lexemesAll style es) := by
  match es with
  | [] => rw [lexemesAll]; exact filling_nil
  | e :: es =>
      simp only [areWellFormed, Bool.and_eq_true] at h
      rw [lexemesAll]
      exact (fragment_lexemes e h.1).toFilling.append (filling_moreLexemes es h.2) fun _ hrest =>
        closes_moreLexemes style es hrest

theorem filling_moreLexemes {style : SourceStyle} (es : List Expr)
    (h : areWellFormed style es = true) : Filling (moreLexemes style es) := by
  match es with
  | [] => rw [moreLexemes]; exact filling_nil
  | e :: es =>
      simp only [areWellFormed, Bool.and_eq_true] at h
      have hrest := (fragment_lexemes e h.1).append (filling_moreLexemes es h.2) fun _ hrest =>
        closes_moreLexemes style es hrest
      rw [moreLexemes]
      exact hrest.spaced.delimited (by decide)

end

end Expr

/-! ### Lines -/

namespace Stmt

/-- An `else` block that is not empty is written as a header and a block. -/
theorem orelseLines_eq (style : SourceStyle) (depth : Nat) {ss : List Stmt} (h : ss ≠ []) :
    orelseLines style depth ss = ⟨depth, elseHeader⟩ :: blockLines style (depth + 1) ss := by
  cases ss with
  | nil => exact absurd rfl h
  | cons s ss => rw [orelseLines, blockLines]

theorem areWellFormed_of_isBlock {style : SourceStyle} {ss : List Stmt}
    (h : isBlock style ss = true) : ss ≠ [] ∧ areWellFormed style ss = true := by
  cases ss with
  | nil => rw [isBlock] at h; cases h
  | cons s ss => rw [isBlock] at h; rw [areWellFormed]; exact ⟨List.cons_ne_nil s ss, h⟩

theorem isBlock_of_areWellFormed {style : SourceStyle} {ss : List Stmt} (hne : ss ≠ [])
    (h : areWellFormed style ss = true) : isBlock style ss = true := by
  cases ss with
  | nil => exact absurd rfl hne
  | cons s ss => rw [areWellFormed] at h; rw [isBlock]; exact h

/-- The line that opens a block. -/
theorem fragment_header {keyword : String} {ls : List Lexeme} (hword : isWord keyword.toList = true)
    (h : Fragment ls) : Fragment (header keyword ls) :=
  (h.append (filling_nil.delimited (by decide)) fun _ _ =>
    closes_of_mem (c := ':') (by decide) _).keyword hword

theorem fragment_elseHeader : Fragment elseHeader :=
  (fragment_word (by decide)).append (filling_nil.delimited (by decide)) fun _ _ =>
    closes_of_mem (c := ':') (by decide) _

/-- The line of an assignment, of either form. -/
theorem fragment_assignment {style : SourceStyle} {target value : Expr} {symbol : List Char}
    (hsymbol : symbol ∈ operators)
    (h : (target.isWellFormed style && target.isTarget && value.isWellFormed style) = true) :
    Fragment
      (target.lexemes style ++ space :: .operator symbol :: space :: value.lexemes style) := by
  simp only [Bool.and_eq_true] at h
  obtain ⟨⟨htarget, -⟩, hvalue⟩ := h
  have hright : Filling (space :: .operator symbol :: space :: value.lexemes style) :=
    (value.fragment_lexemes hvalue).between (List.contains_iff_mem.2 hsymbol)
  exact (target.fragment_lexemes htarget).append hright fun _ _ => closes_of_mem (by decide) _

/-- A function's name and parameters. -/
theorem fragment_signature {name : String} {params : List String} (hname : isName name = true)
    (hparams : ∀ x ∈ params, isName x = true) :
    Fragment (.word name.toList :: .delimiter '(' ::
      (ofNames [.delimiter ',', space] params ++ [.delimiter ')'])) := by
  have hclosed := (isSeparator_comma.ofNames hparams).closed (c := ')') (by decide) (by decide)
  exact (fragment_word (isWord_of_isName hname)).append (hclosed.delimited (by decide))
    fun _ _ => closes_of_mem (by decide) _

/-- The target of a `for` loop and what it goes through. -/
theorem fragment_forClause {style : SourceStyle} {target iter : Expr}
    (htarget : target.isWellFormed style = true) (hiter : iter.isWellFormed style = true) :
    Fragment (target.lexemes style ++
      space :: .word "in".toList :: space :: iter.lexemes style) := by
  have hright : Filling (space :: .word "in".toList :: space :: iter.lexemes style) :=
    (iter.fragment_lexemes hiter).between (by decide)
  exact (target.fragment_lexemes htarget).append hright fun _ _ => closes_of_mem (by decide) _

mutual

/-- Every line of a well-formed statement is a fragment, with those of its blocks. -/
theorem fragment_lines {style : SourceStyle} (depth : Nat) (s : Stmt)
    (h : s.isWellFormed style = true) : ∀ l ∈ s.lines style depth, Fragment l.lexemes := by
  match s with
  | .assign target value =>
      rw [isWellFormed] at h
      rw [lines, List.forall_mem_singleton]
      exact fragment_assignment (by decide) h
  | .augAssign target op value =>
      rw [isWellFormed] at h
      rw [lines, List.forall_mem_singleton]
      exact fragment_assignment (by cases op <;> decide) h
  | .expr value =>
      rw [isWellFormed] at h
      rw [lines, List.forall_mem_singleton]
      exact value.fragment_lexemes h
  | .returnValue none =>
      rw [lines, List.forall_mem_singleton]
      exact fragment_word (by decide)
  | .returnValue (some value) =>
      rw [isWellFormed] at h
      rw [lines, List.forall_mem_singleton]
      exact (value.fragment_lexemes h).keyword (by decide)
  | .functionDef name params body =>
      simp only [isWellFormed, Bool.and_eq_true, List.all_eq_true] at h
      obtain ⟨⟨hname, hparams⟩, hbody⟩ := h
      obtain ⟨-, hbody⟩ := areWellFormed_of_isBlock hbody
      rw [lines, List.forall_mem_cons]
      exact ⟨fragment_header (by decide) (fragment_signature hname hparams),
        fragment_blockLines (depth + 1) body hbody⟩
  | .ifElse condition body alternate =>
      simp only [isWellFormed, Bool.and_eq_true] at h
      obtain ⟨⟨hcondition, hbody⟩, halternate⟩ := h
      obtain ⟨-, hbody⟩ := areWellFormed_of_isBlock hbody
      rw [lines, List.forall_mem_cons, List.forall_mem_append]
      exact ⟨fragment_header (by decide) (condition.fragment_lexemes hcondition),
        fragment_blockLines (depth + 1) body hbody,
        fragment_alternateLines depth alternate halternate⟩
  | .whileLoop condition body orelse =>
      simp only [isWellFormed, Bool.and_eq_true] at h
      obtain ⟨⟨hcondition, hbody⟩, horelse⟩ := h
      obtain ⟨-, hbody⟩ := areWellFormed_of_isBlock hbody
      rw [lines, List.forall_mem_cons, List.forall_mem_append]
      exact ⟨fragment_header (by decide) (condition.fragment_lexemes hcondition),
        fragment_blockLines (depth + 1) body hbody, fragment_orelseLines depth orelse horelse⟩
  | .forLoop target iter body orelse =>
      simp only [isWellFormed, Bool.and_eq_true] at h
      obtain ⟨⟨⟨⟨htarget, -⟩, hiter⟩, hbody⟩, horelse⟩ := h
      obtain ⟨-, hbody⟩ := areWellFormed_of_isBlock hbody
      rw [lines, List.forall_mem_cons, List.forall_mem_append]
      exact ⟨fragment_header (by decide) (fragment_forClause htarget hiter),
        fragment_blockLines (depth + 1) body hbody, fragment_orelseLines depth orelse horelse⟩
  | .classDef name body =>
      simp only [isWellFormed, Bool.and_eq_true] at h
      obtain ⟨hname, hbody⟩ := h
      obtain ⟨-, hbody⟩ := areWellFormed_of_isBlock hbody
      rw [lines, List.forall_mem_cons]
      exact ⟨fragment_header (by decide) (fragment_word (isWord_of_isName hname)),
        fragment_blockLines (depth + 1) body hbody⟩
  | .importModule path =>
      simp only [isWellFormed, Bool.and_eq_true, List.all_eq_true] at h
      obtain ⟨hne, hpath⟩ := h
      rw [lines, List.forall_mem_singleton]
      cases path with
      | nil => cases hne
      | cons part path => exact (isSeparator_dot.fragment hpath).keyword (by decide)
  | .breakLoop => rw [lines, List.forall_mem_singleton]; exact fragment_word (by decide)
  | .continueLoop => rw [lines, List.forall_mem_singleton]; exact fragment_word (by decide)
  | .pass => rw [lines, List.forall_mem_singleton]; exact fragment_word (by decide)

theorem fragment_alternateLines {style : SourceStyle} (depth : Nat) (a : Alternate)
    (h : isAlternate style a = true) : ∀ l ∈ alternateLines style depth a, Fragment l.lexemes := by
  match a with
  | .none => rw [alternateLines]; exact List.forall_mem_nil _
  | .elseIf condition body alternate =>
      simp only [isAlternate, Bool.and_eq_true] at h
      obtain ⟨⟨hcondition, hbody⟩, halternate⟩ := h
      obtain ⟨-, hbody⟩ := areWellFormed_of_isBlock hbody
      rw [alternateLines, List.forall_mem_cons, List.forall_mem_append]
      exact ⟨fragment_header (by decide) (condition.fragment_lexemes hcondition),
        fragment_blockLines (depth + 1) body hbody,
        fragment_alternateLines depth alternate halternate⟩
  | .otherwise body =>
      rw [isAlternate] at h
      obtain ⟨-, hbody⟩ := areWellFormed_of_isBlock h
      rw [alternateLines, List.forall_mem_cons]
      exact ⟨fragment_elseHeader, fragment_blockLines (depth + 1) body hbody⟩

theorem fragment_orelseLines {style : SourceStyle} (depth : Nat) (ss : List Stmt)
    (h : areWellFormed style ss = true) : ∀ l ∈ orelseLines style depth ss, Fragment l.lexemes := by
  match ss with
  | [] => rw [orelseLines]; exact List.forall_mem_nil _
  | s :: ss =>
      simp only [areWellFormed, Bool.and_eq_true] at h
      rw [orelseLines, List.forall_mem_cons, List.forall_mem_append]
      exact ⟨fragment_elseHeader, fragment_lines (depth + 1) s h.1,
        fragment_blockLines (depth + 1) ss h.2⟩

theorem fragment_blockLines {style : SourceStyle} (depth : Nat) (ss : List Stmt)
    (h : areWellFormed style ss = true) : ∀ l ∈ blockLines style depth ss, Fragment l.lexemes := by
  match ss with
  | [] => rw [blockLines]; exact List.forall_mem_nil _
  | s :: ss =>
      simp only [areWellFormed, Bool.and_eq_true] at h
      rw [blockLines, List.forall_mem_append]
      exact ⟨fragment_lines depth s h.1, fragment_blockLines depth ss h.2⟩

end

end Stmt

/-! ### Programs

A line end closes everything, so lines are read back one at a time.
-/

namespace Lexeme

/-- The blanks at the start of a line are read back before text that is not blank. -/
theorem stand_indentation (column : Nat) {rest : List Char}
    (h : ∀ c ∈ rest.head?, isBlank c = false) : Stand (indentation column) rest := by
  unfold indentation
  split
  · exact stand_nil rest
  · rename_i hcolumn
    refine stand_blanks (by simpa using hcolumn) (fun c hc => ?_) h
    rw [List.eq_of_mem_replicate hc]
    rfl

/-- Lines are read back one by one. -/
theorem scan_layOut (style : SourceStyle) {ls : List SourceLine}
    (h : ∀ l ∈ ls, Fragment l.lexemes) :
    scan (spellAll (ls.flatMap (SourceLine.layOut style))) =
      ls.flatMap (SourceLine.layOut style) := by
  induction ls with
  | nil => exact scan_nil
  | cons l ls ih =>
      obtain ⟨hl, hls⟩ := List.forall_mem_cons.1 h
      have hline : Stand (indentation (style.width * l.depth) ++ l.lexemes) [] :=
        .append (stand_indentation _ (hl.isBlank_eq_false [])) (hl.stands [] closes_nil)
      have hspell : spellAll ((l :: ls).flatMap (SourceLine.layOut style)) =
          spellAll (indentation (style.width * l.depth) ++ l.lexemes) ++
            '\n' :: spellAll (ls.flatMap (SourceLine.layOut style)) := by
        simp [SourceLine.layOut, spelling]
      -- A line end is a lexeme of its own, so the line is read back as if it stood alone.
      rw [Stand, List.append_nil, scan_nil, List.append_nil] at hline
      rw [hspell, scan_append_newline, hline, ih hls]
      simp [SourceLine.layOut]

end Lexeme

/-- **The source of a well-formed program is cut into the lexemes that it was
written with.** -/
theorem Program.scan_source {style : SourceStyle} {p : Program} (h : p.isWellFormed style = true) :
    scan (p.source style).toList = p.lexemes style := by
  rw [source, String.toList_ofList]
  exact scan_layOut style (Stmt.fragment_blockLines 0 p.statements h)

end Offside
