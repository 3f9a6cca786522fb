import Offside.Proofs.Decimals
import Offside.Proofs.Neighbours
import Offside.Proofs.Precedence

/-!
# Offside.Proofs.Lexical

What tokens say about the leaves of an expression. In an expression that is read
from tokens of a source, **names are words, numbers have no sign, and f-strings
have one text piece more than placeholders** (`IsParsed.isLexical`), at every
depth and also in the placeholders of f-strings.
-/

namespace Offside

/-! ### Words and numbers

What the scanner says about the texts of words and numbers, and what follows for the
numbers that they stand for.
-/

namespace Lexeme

/-- The words of a text are words in the sense of `isWord`. -/
theorem isWord_of_mem_scan {cs letters : List Char} (h : .word letters ∈ scan cs) :
    isWord letters = true := by
  obtain ⟨d, ds, rest, hcut⟩ := exists_cut_of_mem_scan h
  cases hcut with
  | word hd => exact Bool.and_eq_true_iff.2 ⟨hd, List.all_takeWhile⟩

/-- The numbers of a text start with a digit, so with no sign. -/
theorem exists_digit_of_mem_scan {cs digits : List Char} (h : .number digits ∈ scan cs) :
    ∃ c ds, digits = c :: ds ∧ c.isDigit = true := by
  obtain ⟨d, ds, rest, hcut⟩ := exists_cut_of_mem_scan h
  cases hcut with
  | number digits _ hd => exact ⟨d, digits, rfl, hd⟩

end Lexeme

/-- A number without a sign, such as a literal stands for. -/
def Binary64.IsUnsigned : Binary64 → Prop
  | .finite negative mantissa exponent => negative = false ∧ IsCanonical mantissa exponent
  | .infinite _ | .nan => True

/-- A decimal without a sign is rounded to a number without one. -/
theorem Binary64.isUnsigned_ofDecimal (d : Decimal) : (ofDecimal false d).IsUnsigned := by
  cases h : ofDecimal false d with
  | finite negative m k => exact isCanonical_of_ofDecimal h
  | infinite _ | nan => trivial

/-- A numeral that starts with a digit has no sign to read. -/
theorem Numeral.sign_of_isDigit {c : Char} (hc : c.isDigit = true) (cs : List Char) :
    sign (c :: cs) = (false, c :: cs) := by
  have hminus : c ≠ '-' := Lexeme.ne_of_class hc (by decide)
  have hplus : c ≠ '+' := Lexeme.ne_of_class hc (by decide)
  rw [sign]
  · intro ds hds
    exact hminus (List.cons.inj hds).1
  · intro ds hds
    exact hplus (List.cons.inj hds).1

/-- What a numeral that starts with a digit stands for has no sign. -/
theorem Numeral.isUnsigned_of_read? {text : String} {value : Binary64} {c : Char} {cs : List Char}
    (htext : text.toList = c :: cs) (hc : c.isDigit = true) (h : read? text = some value) :
    value.IsUnsigned := by
  unfold read? at h
  rw [htext, sign_of_isDigit hc] at h
  simp only at h
  split at h
  · cases h
    trivial
  · split at h
    · cases h
      trivial
    · obtain ⟨d, -, rfl⟩ := Option.map_eq_some_iff.1 h
      exact Binary64.isUnsigned_ofDecimal d

/-! ### Tokens

The layout makes no tokens of these two kinds, so what holds of lexemes holds of the
tokens of programs and of expressions.
-/

/-- A name is a word, and a number starts with a digit. -/
structure Token.IsLexical (t : Token) : Prop where
  word : t.kind = .identifier → Lexeme.isWord t.text.toList = true
  number : t.kind = .number → ∃ c cs, t.text.toList = c :: cs ∧ c.isDigit = true

namespace Token

/-- A number token comes from a number among the lexemes, with its text. -/
theorem exists_number_of_token? {l : Lexeme} {line : Nat} {t : Token} (h : l.token? line = some t)
    (ht : t.kind = .number) : ∃ digits, l = .number digits ∧ t.text = String.ofList digits := by
  cases l with
  | number digits =>
      obtain rfl := Option.some.inj h
      exact ⟨digits, rfl, rfl⟩
  | comment _ | blanks _ | newline => cases h
  | quoted marker _ _ =>
      cases marker <;> (obtain rfl := Option.some.inj h; cases ht)
  | word letters =>
      obtain rfl := Option.some.inj h
      by_cases hletters : letters ∈ Lexeme.keywords <;> simp [hletters] at ht
  | operator _ | delimiter _ | dot | stray _ =>
      obtain rfl := Option.some.inj h
      cases ht

/-- The token of a lexeme of a text is lexical, whichever mode it is read in. -/
theorem isLexical_of_lexeme {source : List Char} {l : Lexeme} (hl : l ∈ Lexeme.scan source)
    {line : Nat} {t : Token} (h : l.token? line = some t) : t.IsLexical := by
  constructor
  · intro hkind
    obtain ⟨letters, rfl, htext, -⟩ := exists_word_of_token? h (.inr hkind)
    rw [htext, String.toList_ofList]
    exact Lexeme.isWord_of_mem_scan hl
  · intro hkind
    obtain ⟨digits, rfl, htext⟩ := exists_number_of_token? h hkind
    rw [htext, String.toList_ofList]
    exact Lexeme.exists_digit_of_mem_scan hl

theorem isLexical_of_mem_ofProgram {source : List Char} {t : Token} (h : t ∈ ofProgram source) :
    t.IsLexical := by
  rcases mem_layout h with hkind | hkind | hkind | ⟨l, hl, n, hn⟩
  · exact ⟨by simp [hkind], by simp [hkind]⟩
  · exact ⟨by simp [hkind], by simp [hkind]⟩
  · exact ⟨by simp [hkind], by simp [hkind]⟩
  · exact isLexical_of_lexeme hl hn

theorem isLexical_of_mem_ofExpression {source : List Char} {line : Nat} {t : Token}
    (h : t ∈ ofExpression source line) : t.IsLexical := by
  obtain ⟨l, hl, n, hn⟩ := exists_lexeme_of_mem_flatten h
  exact isLexical_of_lexeme hl hn

end Token

/-! ### Expressions

The derivation of an expression takes its leaves from the tokens. F-strings are read
from their text, so what is known of them is a hypothesis until `gives_isLexical`.
-/

namespace Expr

mutual

/-- The leaves of an expression are such as tokens give. -/
def IsLexical : Expr → Prop
  | .ident name => Lexeme.isWord name.toList = true
  | .literal (.number value) => value.IsUnsigned
  | .literal _ => True
  | .fstring quasis expressions =>
    quasis.length = expressions.length + 1 ∧ AreLexical expressions
  | .binary left _ right _ => IsLexical left ∧ IsLexical right
  | .unary _ operand => IsLexical operand
  | .attr value name => Lexeme.isWord name.toList = true ∧ IsLexical value
  | .call callee args => IsLexical callee ∧ AreLexical args
  | .index target position => IsLexical target ∧ IsLexical position
  | .list items => AreLexical items
  | .group inner => IsLexical inner

/-- The leaves of the expressions are such as tokens give. -/
def AreLexical : List Expr → Prop
  | [] => True
  | e :: es => IsLexical e ∧ AreLexical es

end

theorem areLexical_iff {es : List Expr} : AreLexical es ↔ ∀ e ∈ es, e.IsLexical := by
  induction es with
  | nil => simp [AreLexical]
  | cons e es ih => simp [AreLexical, ih]

end Expr

namespace Grammar

/-- The leaves of the expressions of a phrase are such as tokens give. -/
def Phrase.IsLexical : Phrase → Prop
  | .expression _ e | .unary e | .primary e | .atom e => e.IsLexical
  | .arguments es | .moreArguments es | .items es | .moreItems es => Expr.AreLexical es

/-- Lexical tokens form phrases whose leaves are lexical, if those of f-strings are. -/
theorem Forms.isLexical {r : Reader} {ph : Phrase} {ts : List Token}
    (hread : FString.Gives Expr.IsLexical r) (h : Forms r ph ts)
    (hts : ∀ t ∈ ts, t.IsLexical) : ph.IsLexical := by
  induction h with
  | number hkind hvalue =>
      obtain ⟨c, cs, htext, hc⟩ := (hts _ List.mem_cons_self).number hkind
      exact Numeral.isUnsigned_of_read? htext hc hvalue
  | string => trivial
  | fstring _ htext =>
      obtain ⟨hlength, hes⟩ := hread _ _ _ _ htext
      exact ⟨hlength, Expr.areLexical_iff.2 hes⟩
  | ident hkind => exact (hts _ List.mem_cons_self).word hkind
  | constant _ hvalue =>
      unfold constant? at hvalue
      split at hvalue
      · cases hvalue
        trivial
      · split at hvalue
        · cases hvalue
          trivial
        · split at hvalue
          · cases hvalue
            trivial
          · cases hvalue
  | group _ _ _ ih => exact ih fun t ht => hts t (by simp [ht])
  | list _ _ ih => exact ih fun t ht => hts t (by simp [ht])
  | ofAtom _ ih | ofPrimary _ ih | ofUnary _ ih => exact ih hts
  | attr _ _ hname ih =>
      exact ⟨(hts _ (by simp)).word hname, ih fun t ht => hts t (by simp [ht])⟩
  | call _ _ _ ihbase ihargs =>
      exact ⟨ihbase fun t ht => hts t (by simp [ht]), ihargs fun t ht => hts t (by simp [ht])⟩
  | index _ _ _ _ ihbase ihposition =>
      exact ⟨ihbase fun t ht => hts t (by simp [ht]), ihposition fun t ht => hts t (by simp [ht])⟩
  | unary _ _ ih => exact ih fun t ht => hts t (by simp [ht])
  | binary _ _ _ _ ihleft ihright =>
      exact ⟨ihleft fun t ht => hts t (by simp [ht]), ihright fun t ht => hts t (by simp [ht])⟩
  | noArguments | endArguments | noItems | endItems => trivial
  | argument _ _ ihe ihes | nextArgument _ _ _ ihe ihes | item _ _ ihe ihes =>
      exact ⟨ihe fun t ht => hts t (by simp [ht]), ihes fun t ht => hts t (by simp [ht])⟩
  | nextItems _ _ ih => exact ih fun t ht => hts t (by simp [ht])

/-- The leaves in placeholders are lexical, since their tokens are cut from a text too. -/
theorem gives_isLexical : FString.Gives Expr.IsLexical Program.fstringReader :=
  Program.gives_fstringReader fun _ _ _ _ hread h =>
    h.isLexical hread fun _ => Token.isLexical_of_mem_ofExpression

end Grammar

/-! ### Expressions of a source -/

/-- An expression is read from some place among the tokens of a program or of a
placeholder. -/
def Expr.IsParsed (e : Expr) : Prop :=
  ∃ (c after : Grammar.Cursor) (m : Nat), c.expression m = (.ok e, after) ∧
    ((∃ source, c.rest <:+ Token.ofProgram source) ∨
      ∃ source line, c.rest <:+ Token.ofExpression source line)

theorem Expr.IsParsed.isGrouped {e : Expr} (h : e.IsParsed) : e.isGrouped = true := by
  obtain ⟨c, after, m, hread, -⟩ := h
  obtain ⟨used, -, hform, -⟩ := Grammar.Cursor.exists_forms_of_expression hread
  exact (hform.isGrouped Grammar.gives_isGrouped).1

/-- **The leaves of an expression that is read from a source are words and numbers
of the source.** -/
theorem Expr.IsParsed.isLexical {e : Expr} (h : e.IsParsed) : e.IsLexical := by
  obtain ⟨c, after, m, hread, hsource⟩ := h
  obtain ⟨used, hrest, hform, -⟩ := Grammar.Cursor.exists_forms_of_expression hread
  refine hform.isLexical Grammar.gives_isLexical fun t ht => ?_
  have hmem : t ∈ c.rest := by
    rw [hrest]
    exact List.mem_append_left _ ht
  rcases hsource with ⟨source, hsuffix⟩ | ⟨source, line, hsuffix⟩
  · exact Token.isLexical_of_mem_ofProgram (hsuffix.mem hmem)
  · exact Token.isLexical_of_mem_ofExpression (hsuffix.mem hmem)

end Offside
