import Offside.Proofs.Derivation.Statement
import Offside.Proofs.Fragment
import Offside.Proofs.Lines

/-!
# Offside.Proofs.Derivation.Written

The tokens of what is **written** form it: those of an expression's lexemes the
expression (`Expr.forms_lexemes`), and those of a simple statement's line the
statement (`Stmt.simple_lines`).

All tokens of a line stand on it, so an expression is formed with the line that
it is written on in place of its own ones.
-/

namespace Offside

open Grammar Lexeme

/-! ### Tokens of lexemes -/

namespace Lexeme

/-- The tokens of lexemes on one line. -/
def tokens (line : Nat) (ls : List Lexeme) : List Token := ls.filterMap (token? line)

@[simp] theorem tokens_nil (line : Nat) : tokens line [] = [] := rfl

/-- Lexemes become tokens one by one. -/
@[simp] theorem tokens_append (line : Nat) (ls ms : List Lexeme) :
    tokens line (ls ++ ms) = tokens line ls ++ tokens line ms := List.filterMap_append

@[simp] theorem tokens_space (line : Nat) (ls : List Lexeme) :
    tokens line (space :: ls) = tokens line ls := rfl

@[simp] theorem tokens_delimiter (line : Nat) (c : Char) (ls : List Lexeme) :
    tokens line (.delimiter c :: ls) = ⟨.delimiter, c.toString, line⟩ :: tokens line ls := rfl

@[simp] theorem tokens_dot (line : Nat) (ls : List Lexeme) :
    tokens line (.dot :: ls) = ⟨.dot, ".", line⟩ :: tokens line ls := rfl

/-- A lexeme that becomes a token puts it in front. -/
theorem tokens_cons {line : Nat} {l : Lexeme} {t : Token} (h : l.token? line = some t)
    (ls : List Lexeme) : tokens line (l :: ls) = t :: tokens line ls := by
  simp [tokens, h]

/-- A name is no keyword, so its word is an identifier. -/
theorem tokens_name {name : String} (h : isName name = true) (line : Nat) (ls : List Lexeme) :
    tokens line (.word name.toList :: ls) = ⟨.identifier, name, line⟩ :: tokens line ls := by
  have hkeyword : name.toList ∉ keywords := by
    simpa [isName] using (Bool.and_eq_true_iff.1 h).2
  refine tokens_cons ?_ ls
  simp [token?, hkeyword]

/-- The word of a keyword is a keyword token. -/
theorem tokens_keyword {text : String} (h : text.toList ∈ keywords) (line : Nat)
    (ls : List Lexeme) :
    tokens line (.word text.toList :: ls) = ⟨.keyword, text, line⟩ :: tokens line ls := by
  refine tokens_cons ?_ ls
  simp [token?, h]

end Lexeme

theorem Token.is_mk (kind : TokenKind) (text : String) (line : Nat) :
    (⟨kind, text, line⟩ : Token).is kind text = true := by
  simp [Token.is]

/-! ### Operators

Operators are matched by the text of their token, so that a written operator is the
one that is read has to be checked for each of them.
-/

/-- The token of a binary operator is read as that operator. -/
theorem BinaryOp.token?_lexeme (op : BinaryOp) (line : Nat) :
    ∃ t, op.lexeme.token? line = some t ∧ binaryOp? t = some op ∧ t.line = line := by
  cases op <;> exact ⟨_, rfl, rfl, rfl⟩

/-- The token of a unary operator is read as that operator. The blank after `not` is no
token. -/
theorem UnaryOp.tokens_lexemes (op : UnaryOp) (line : Nat) (ls : List Lexeme) :
    ∃ t, tokens line (op.lexemes ++ ls) = t :: tokens line ls ∧ unaryOp? t = some op := by
  cases op <;> exact ⟨_, rfl, rfl⟩

/-! ### Expressions

An expression is written without parentheses of its own, so it is formed as the
narrowest phrase that its outermost construct allows (`Expr.phrase`), and stands
wherever that phrase is wide enough.
-/

namespace Expr

/-- The narrowest phrase that an expression is. -/
def phrase : Expr → Phrase
  | e@(.binary _ op _ _) => .expression op.precedence e
  | e@(.unary ..) => .unary e
  | e => .primary e

end Expr

section

variable {r : Reader} {e : Expr} {ts : List Token}

/-- An expression whose operators bind at least as strongly as `m` is one where less
is asked of them. -/
theorem Grammar.Forms.loosen {m n : Nat} (h : Forms r (.expression m e) ts) (hle : n ≤ m) :
    Forms r (.expression n e) ts := by
  cases h with
  | ofUnary h => exact .ofUnary h
  | binary hpower hleft hop hright => exact .binary (Nat.le_trans hle hpower) hleft hop hright

/-- An expression stands as an operand where its operator binds strongly enough. -/
theorem Grammar.Forms.expression_of_phrase {m : Nat} (h : Forms r e.phrase ts)
    (hpower : e.hasPower m = true) : Forms r (.expression m e) ts := by
  cases e with
  | binary left op right line => exact Forms.loosen h (of_decide_eq_true hpower)
  | unary op operand => exact .ofUnary h
  | _ => exact .ofUnary (.ofPrimary h)

/-- Where nothing is asked of its operator, an expression always stands. -/
theorem Grammar.Forms.whole (h : Forms r e.phrase ts) : Forms r (.expression 0 e) ts := by
  refine h.expression_of_phrase ?_
  cases e <;> simp [Expr.hasPower]

/-- An expression that is not binary stands as the operand of a unary operator. -/
theorem Grammar.Forms.unary_of_phrase (h : Forms r e.phrase ts) (hbinary : e.isBinary = false) :
    Forms r (.unary e) ts := by
  cases e with
  | binary left op right line => cases hbinary
  | unary op operand => exact h
  | _ => exact .ofPrimary h

/-- A primary expression stands before an attribute, a call or a position. -/
theorem Grammar.Forms.primary_of_phrase (h : Forms r e.phrase ts) (hprimary : e.isPrimary = true) :
    Forms r (.primary e) ts := by
  cases e with
  | binary left op right line => cases hprimary
  | unary op operand => cases hprimary
  | _ => exact h

end

namespace Expr

@[simp] theorem isPrimary_mapLines (f : Nat → Nat) (e : Expr) :
    (e.mapLines f).isPrimary = e.isPrimary := by
  cases e <;> rfl

@[simp] theorem isBinary_mapLines (f : Nat → Nat) (e : Expr) :
    (e.mapLines f).isBinary = e.isBinary := by
  cases e <;> rfl

@[simp] theorem hasPower_mapLines (f : Nat → Nat) (m : Nat) (e : Expr) :
    (e.mapLines f).hasPower m = e.hasPower m := by
  cases e <;> rfl

section

variable {r : Reader} {style : SourceStyle} {line : Nat}

/-- Expressions are formed by the tokens of their lexemes. -/
def FormEach (r : Reader) (style : SourceStyle) (line : Nat) (es : List Expr) : Prop :=
  ∀ e ∈ es, Forms r (.expression 0 (e.mapLines fun _ => line)) (tokens line (e.lexemes style))

/-- What follows an argument, up to the parenthesis that closes the call. -/
theorem forms_moreArguments {es : List Expr} (h : FormEach r style line es) :
    Forms r (.moreArguments (mapLinesAll (fun _ => line) es))
      (tokens line (moreLexemes style es ++ [.delimiter ')'])) := by
  induction es with
  | nil => exact .endArguments (Token.is_mk ..)
  | cons e es ih =>
      obtain ⟨he, hes⟩ := List.forall_mem_cons.1 h
      simp only [moreLexemes, List.cons_append, List.append_assoc, tokens_delimiter, tokens_space]
      rw [tokens_append]
      exact .nextArgument (Token.is_mk ..) he (ih hes)

theorem forms_arguments {es : List Expr} (h : FormEach r style line es) :
    Forms r (.arguments (mapLinesAll (fun _ => line) es))
      (tokens line (lexemesAll style es ++ [.delimiter ')'])) := by
  cases es with
  | nil => exact .noArguments (Token.is_mk ..)
  | cons e es =>
      obtain ⟨he, hes⟩ := List.forall_mem_cons.1 h
      rw [lexemesAll, List.append_assoc, tokens_append]
      exact .argument he (forms_moreArguments hes)

/-- What follows an item, up to the bracket that closes the list. -/
theorem forms_moreItems {es : List Expr} (h : FormEach r style line es) :
    Forms r (.moreItems (mapLinesAll (fun _ => line) es))
      (tokens line (moreLexemes style es ++ [.delimiter ']'])) := by
  induction es with
  | nil => exact .endItems (Token.is_mk ..)
  | cons e es ih =>
      obtain ⟨he, hes⟩ := List.forall_mem_cons.1 h
      simp only [moreLexemes, List.cons_append, List.append_assoc, tokens_delimiter, tokens_space]
      rw [tokens_append]
      exact .nextItems (Token.is_mk ..) (.item he (ih hes))

theorem forms_items {es : List Expr} (h : FormEach r style line es) :
    Forms r (.items (mapLinesAll (fun _ => line) es))
      (tokens line (lexemesAll style es ++ [.delimiter ']'])) := by
  cases es with
  | nil => exact .noItems (Token.is_mk ..)
  | cons e es =>
      obtain ⟨he, hes⟩ := List.forall_mem_cons.1 h
      rw [lexemesAll, List.append_assoc, tokens_append]
      exact .item he (forms_moreItems hes)

/-- A literal is read back from its spelling: numbers by the style's choice of a
spelling that gives them, strings by escaping and unescaping. -/
theorem forms_literal {value : Literal} (h : (Expr.literal value).isWellFormed style = true) :
    Forms r (.atom (.literal value)) (tokens line [value.lexeme style]) := by
  match value with
  | .number value =>
      have hread : Numeral.read? (String.ofList (style.spell value)) = some value :=
        of_decide_eq_true (Bool.and_eq_true_iff.1 h).2
      exact .number (t := ⟨.number, String.ofList (style.spell value), line⟩) rfl hread
  | .string value =>
      have htext := Text.unescape_literalChars style.isQuote value
      have hform := @Forms.string r
        ⟨.string, String.ofList (Text.literalChars style.quote value.toList), line⟩ rfl
      rw [htext] at hform
      exact hform
  | .boolean true => exact .constant (t := ⟨.keyword, "True", line⟩) rfl rfl
  | .boolean false => exact .constant (t := ⟨.keyword, "False", line⟩) rfl rfl
  | .null => exact .constant (t := ⟨.keyword, "None", line⟩) rfl rfl

mutual

/-- The tokens of an expression's lexemes form the expression. -/
theorem forms_lexemes (e : Expr) (h : e.isWellFormed style = true) :
    Forms r (e.mapLines fun _ => line).phrase (tokens line (e.lexemes style)) := by
  match e with
  | .ident name =>
      rw [isWellFormed] at h
      rw [lexemes, tokens_name h]
      exact .ofAtom (.ident (t := ⟨.identifier, name, line⟩) rfl)
  | .literal value => rw [lexemes]; exact .ofAtom (forms_literal h)
  | .fstring _ _ => rw [isWellFormed] at h; cases h
  | .binary left op right _ =>
      simp only [isWellFormed, Bool.and_eq_true] at h
      obtain ⟨⟨hleft, hleftPower⟩, hright, hrightPower⟩ := h
      obtain ⟨t, htoken, hop, hline⟩ := op.token?_lexeme line
      have hl := (forms_lexemes left hleft).expression_of_phrase (m := op.precedence)
        ((hasPower_mapLines ..).trans hleftPower)
      have hr := (forms_lexemes right hright).expression_of_phrase (m := op.precedence + 1)
        ((hasPower_mapLines ..).trans hrightPower)
      rw [lexemes, tokens_append, tokens_space, tokens_cons htoken, tokens_space]
      -- The operation has the line of its operator, which is that of all the tokens.
      have hform := Forms.binary (Nat.le_refl _) hl hop hr
      rw [hline] at hform
      exact hform
  | .unary op operand =>
      simp only [isWellFormed, Bool.and_eq_true, Bool.not_eq_true'] at h
      obtain ⟨hoperand, hbinary⟩ := h
      obtain ⟨t, htokens, hop⟩ := op.tokens_lexemes line (operand.lexemes style)
      have ho := (forms_lexemes operand hoperand).unary_of_phrase
        ((isBinary_mapLines ..).trans hbinary)
      rw [lexemes, htokens]
      exact .unary hop ho
  | .attr value name =>
      simp only [isWellFormed, Bool.and_eq_true] at h
      obtain ⟨⟨hvalue, hprimary⟩, hname⟩ := h
      have hv := (forms_lexemes value hvalue).primary_of_phrase
        ((isPrimary_mapLines ..).trans hprimary)
      rw [lexemes, tokens_append, tokens_dot, tokens_name hname]
      exact @Forms.attr r _ _ ⟨.dot, ".", line⟩ ⟨.identifier, name, line⟩ hv rfl rfl
  | .call callee args =>
      simp only [isWellFormed, Bool.and_eq_true] at h
      obtain ⟨⟨hcallee, hprimary⟩, hargs⟩ := h
      have hc := (forms_lexemes callee hcallee).primary_of_phrase
        ((isPrimary_mapLines ..).trans hprimary)
      rw [lexemes, tokens_append, tokens_delimiter]
      exact .call hc (Token.is_mk ..) (forms_arguments (forms_all args hargs))
  | .index target position =>
      simp only [isWellFormed, Bool.and_eq_true] at h
      obtain ⟨⟨htarget, hprimary⟩, hposition⟩ := h
      have ht := (forms_lexemes target htarget).primary_of_phrase
        ((isPrimary_mapLines ..).trans hprimary)
      rw [lexemes, tokens_append, tokens_delimiter, tokens_append]
      exact .index ht (Token.is_mk ..) (forms_lexemes position hposition).whole (Token.is_mk ..)
  | .list items =>
      rw [isWellFormed] at h
      rw [lexemes, tokens_delimiter]
      exact .ofAtom (.list (Token.is_mk ..) (forms_items (forms_all items h)))
  | .group inner =>
      rw [isWellFormed] at h
      rw [lexemes, tokens_delimiter, tokens_append]
      exact .ofAtom (.group (Token.is_mk ..) (forms_lexemes inner h).whole (Token.is_mk ..))

/-- Each of some expressions is formed by its own tokens. -/
theorem forms_all (es : List Expr) (h : areWellFormed style es = true) :
    FormEach r style line es := by
  match es with
  | [] => exact List.forall_mem_nil _
  | e :: es =>
      simp only [areWellFormed, Bool.and_eq_true] at h
      exact List.forall_mem_cons.2 ⟨(forms_lexemes e h.1).whole, forms_all es h.2⟩

end

theorem forms_whole {e : Expr} (h : e.isWellFormed style = true) :
    Forms r (.expression 0 (e.mapLines fun _ => line)) (tokens line (e.lexemes style)) :=
  (forms_lexemes e h).whole

end

end Expr

/-! ### Names

Lists of names are written with a separator before each name but the first, as the
grammar reads them.
-/

/-- The parts of a module path after the first one. -/
theorem moreParts_tokens {names : List String} (h : ∀ name ∈ names, isName name = true)
    (line : Nat) :
    MoreParts names (tokens line (names.flatMap fun name => [.dot] ++ [.word name.toList])) := by
  induction names with
  | nil => exact .done
  | cons name names ih =>
      obtain ⟨hname, hnames⟩ := List.forall_mem_cons.1 h
      simp only [List.flatMap_cons, List.cons_append, List.nil_append, tokens_dot]
      rw [tokens_name hname]
      exact @MoreParts.next ⟨.dot, ".", line⟩ ⟨.identifier, name, line⟩ _ _ rfl rfl (ih hnames)

/-- The parameters after the first one, up to the parenthesis. -/
theorem moreParameters_tokens {names : List String} (h : ∀ name ∈ names, isName name = true)
    (line : Nat) :
    MoreParameters names
      (tokens line ((names.flatMap fun name => [.delimiter ',', space] ++ [.word name.toList]) ++
        [.delimiter ')'])) := by
  induction names with
  | nil => exact .done (Token.is_mk ..)
  | cons name names ih =>
      obtain ⟨hname, hnames⟩ := List.forall_mem_cons.1 h
      simp only [List.flatMap_cons, List.cons_append, List.nil_append, tokens_delimiter,
        tokens_space]
      rw [tokens_name hname]
      exact @MoreParameters.next _ ⟨.identifier, name, line⟩ _ _ (Token.is_mk ..) rfl (ih hnames)

theorem parameters_tokens {names : List String} (h : ∀ name ∈ names, isName name = true)
    (line : Nat) :
    Parameters names
      (tokens line (ofNames [.delimiter ',', space] names ++ [.delimiter ')'])) := by
  cases names with
  | nil => exact .none (Token.is_mk ..)
  | cons name names =>
      obtain ⟨hname, hnames⟩ := List.forall_mem_cons.1 h
      rw [ofNames, List.cons_append, tokens_name hname]
      exact @Parameters.some ⟨.identifier, name, line⟩ _ _ rfl (moreParameters_tokens hnames line)

/-! ### Simple statements -/

/-- A statement has no blocks. -/
def Stmt.isSimple : Stmt → Bool
  | .functionDef .. | .ifElse .. | .whileLoop .. | .forLoop .. | .classDef .. => false
  | _ => true

/-- The symbol of an augmented assignment is read as that assignment. -/
theorem AugmentedOp.assignment?_symbol (op : AugmentedOp) (line : Nat) :
    assignment? ⟨.operator, op.symbol, line⟩ = some (some op) := by
  simp [assignment?, AugmentedOp.ofSymbol?_symbol]

section

variable {r : Reader} {style : SourceStyle}

/-- Both forms of assignment are a target, a symbol and a value. -/
theorem simple_assignment {target value : Expr} {op : Option AugmentedOp} {symbol : String}
    {line : Nat} (hop : assignment? ⟨.operator, symbol, line⟩ = some op)
    (h : (target.isWellFormed style && target.isTarget && value.isWellFormed style) = true) :
    Simple r (assigned (target.mapLines fun _ => line) (value.mapLines fun _ => line) op)
      (tokens line (target.lexemes style ++
        space :: .operator symbol.toList :: space :: value.lexemes style)) := by
  simp only [Bool.and_eq_true] at h
  obtain ⟨⟨htarget, hassignable⟩, hvalue⟩ := h
  have htoken : (Lexeme.operator symbol.toList).token? line = some ⟨.operator, symbol, line⟩ := by
    simp [token?]
  rw [tokens_append, tokens_space, tokens_cons htoken, tokens_space]
  exact .assignment (Expr.forms_whole htarget) hop (Expr.forms_whole hvalue)
    ((Expr.isTarget_mapLines ..).trans hassignable)

/-- A simple statement is written on one line, whose tokens form it. -/
theorem Stmt.simple_lines {s : Stmt} (hs : s.isSimple = true) (h : s.isWellFormed style = true)
    (depth line : Nat) :
    ∃ ls, s.lines style depth = [⟨depth, ls⟩] ∧
      Simple r (s.mapLines fun _ => line) (tokens line ls) := by
  match s with
  | .assign target value =>
      rw [isWellFormed] at h
      have hop : assignment? ⟨.operator, "=", line⟩ = some none := rfl
      exact ⟨_, rfl, simple_assignment hop h⟩
  | .augAssign target op value =>
      rw [isWellFormed] at h
      exact ⟨_, rfl, simple_assignment (op.assignment?_symbol line) h⟩
  | .expr value =>
      rw [isWellFormed] at h
      exact ⟨_, rfl, .expr (Expr.forms_whole h)⟩
  | .returnValue none => exact ⟨_, rfl, .bareReturn (Token.is_mk ..)⟩
  | .returnValue (some value) =>
      rw [isWellFormed] at h
      refine ⟨_, rfl, ?_⟩
      rw [tokens_keyword (by decide), tokens_space]
      exact .returnValue (Token.is_mk ..) (Expr.forms_whole h)
  | .importModule [] => rw [isWellFormed] at h; cases h
  | .importModule (part :: path) =>
      simp only [isWellFormed, Bool.and_eq_true, List.all_eq_true] at h
      obtain ⟨hpart, hpath⟩ := List.forall_mem_cons.1 h.2
      refine ⟨_, rfl, ?_⟩
      rw [tokens_keyword (by decide), tokens_space, ofNames, tokens_name hpart]
      exact @Simple.importModule r _ ⟨.identifier, part, line⟩ _ _ (Token.is_mk ..) rfl
        (moreParts_tokens hpath line)
  | .breakLoop => exact ⟨_, rfl, .breakLoop (Token.is_mk ..)⟩
  | .continueLoop => exact ⟨_, rfl, .continueLoop (Token.is_mk ..)⟩
  | .pass => exact ⟨_, rfl, .pass (Token.is_mk ..)⟩

end

end Offside
