import Offside.Proofs.Scan
import Offside.Token.Layout
import Offside.Text.Literal

/-!
# Offside.Proofs.Spelling

Lexemes are **read back** from their spellings, as long as neighbours do not run
together. A text that is written out of lexemes is cut into these lexemes again
(`Stand`); whether a lexeme stands depends only on the text after it:

* a word or a number stands before a text that **closes** it, one that neither
  goes on with a word nor adds a fraction;
* an operator stands before a text that makes no longer operator of it;
* blanks stand before a text that does not start with a blank;
* all other lexemes stand before every text.
-/

namespace Offside.Lexeme

/-! ### Spelling and reading back -/

/-- The source text of lexemes. -/
def spellAll (ls : List Lexeme) : List Char := ls.flatMap spelling

@[simp] theorem spellAll_nil : spellAll [] = [] := rfl

@[simp] theorem spellAll_cons (l : Lexeme) (ls : List Lexeme) :
    spellAll (l :: ls) = l.spelling ++ spellAll ls := rfl

@[simp] theorem spellAll_append (ls ms : List Lexeme) :
    spellAll (ls ++ ms) = spellAll ls ++ spellAll ms := List.flatMap_append

/-- The lexemes are read back from their spelling when `rest` follows. -/
def Stand (ls : List Lexeme) (rest : List Char) : Prop :=
  scan (spellAll ls ++ rest) = ls ++ scan rest

theorem stand_nil (rest : List Char) : Stand [] rest := rfl

/-- Lexemes stand side by side if the first ones stand before the text of the others. -/
theorem Stand.append {ls ms : List Lexeme} {rest : List Char}
    (hls : Stand ls (spellAll ms ++ rest)) (hms : Stand ms rest) : Stand (ls ++ ms) rest := by
  unfold Stand at *
  rw [spellAll_append, List.append_assoc, hls, hms, List.append_assoc]

theorem Stand.cons {l : Lexeme} {ms : List Lexeme} {rest : List Char}
    (hl : Stand [l] (spellAll ms ++ rest)) (hms : Stand ms rest) : Stand (l :: ms) rest :=
  Stand.append hl hms

/-- A lexeme stands where it is cut. -/
theorem stand_of_next {l : Lexeme} {c : Char} {cs rest : List Char}
    (hspelling : l.spelling = c :: cs) (hnext : next c (cs ++ rest) = (l, rest)) :
    Stand [l] rest := by
  unfold Stand
  rw [spellAll_cons, spellAll_nil, List.append_nil, hspelling, List.cons_append, scan_cons, hnext]
  rfl

/-! ### Words -/

/-- A text is a word, that is, a keyword or an identifier. -/
def isWord : List Char → Bool
  | [] => false
  | c :: cs => isWordStart c && cs.all isWordPart

/-- A text is an identifier. -/
def isName (text : String) : Bool := isWord text.toList && !keywords.contains text.toList

/-- The text ends a word or a number that stands before it. -/
structure Closes (rest : List Char) : Prop where
  word : ∀ c ∈ rest.head?, isWordPart c = false
  quote : ∀ c ∈ rest.head?, c ≠ '"' ∧ c ≠ '\''
  number : fraction rest = ([], rest)

/-- The characters that end an expression or an argument. -/
def closers : List Char := [' ', ')', ']', '(', '[', ',', ':']

theorem closes_nil : Closes [] := ⟨by simp, by simp, rfl⟩

/-- A text that starts with one of the closing characters closes every lexeme. -/
theorem closes_of_mem {c : Char} (hc : c ∈ closers) (rest : List Char) : Closes (c :: rest) := by
  have hall : closers.all (fun d => !isWordPart d && d ≠ '"' && d ≠ '\'' && d ≠ '.') = true := by
    decide
  have hclass := List.all_eq_true.1 hall c hc
  simp only [Bool.and_eq_true, Bool.not_eq_true', decide_eq_true_eq] at hclass
  obtain ⟨⟨⟨hword, hdouble⟩, hsingle⟩, hdot⟩ := hclass
  refine ⟨by simpa using hword, by simpa using ⟨hdouble, hsingle⟩, ?_⟩
  rw [fraction]
  rintro d cs ⟨⟩
  exact hdot rfl

/-- No digit starts a word. -/
theorem isDigit_eq_false_of_isWordStart {c : Char} (h : isWordStart c = true) :
    c.isDigit = false := by
  refine Bool.eq_false_iff.2 fun hdigit => ?_
  have hnine : c.val.toNat ≤ '9'.toNat := (Char.isDigit_iff_toNat.1 hdigit).2
  rcases Bool.or_eq_true_iff.1 h with hletter | hunderscore
  · have hfirst : 'A'.val ≤ c.val ∨ 'a'.val ≤ c.val := by
      rcases Bool.or_eq_true_iff.1 hletter with hupper | hlower
      · exact .inl (of_decide_eq_true hupper).1
      · exact .inr (of_decide_eq_true (Bool.and_eq_true_iff.1 hlower).1)
    have hdigits : '9'.toNat < 'A'.val.toNat ∧ '9'.toNat < 'a'.val.toNat := by decide
    rcases hfirst with hupper | hlower
    · have := UInt32.le_iff_toNat_le.1 hupper
      omega
    · have := UInt32.le_iff_toNat_le.1 hlower
      omega
  · rw [of_decide_eq_true hunderscore] at hnine
    exact absurd hnine (by decide)

/-- A point before a name is not one of a number. -/
theorem closes_dot {c : Char} (hc : isWordStart c = true) (rest : List Char) :
    Closes ('.' :: c :: rest) :=
  ⟨by simp [isWordPart], by simp, by simp [fraction, isDigit_eq_false_of_isWordStart hc]⟩

theorem ne_of_class {p : Char → Bool} {c d : Char} (hc : p c = true) (hd : p d = false) :
    c ≠ d := by
  rintro rfl
  exact Bool.false_ne_true (hd.symm.trans hc)

theorem not_mem_of_class {p : Char → Bool} {c : Char} {cs : List Char} (hc : p c = true)
    (hcs : cs.any p = false) : c ∉ cs := by
  intro hmem
  exact List.any_eq_false.1 hcs c hmem hc

/-- A letter starts a string only if a quote follows. -/
theorem quoted?_of_isWordStart {c : Char} {cs : List Char} (hc : isWordStart c = true)
    (hcs : ∀ d ∈ cs.head?, d ≠ '"' ∧ d ≠ '\'') : quoted? (c :: cs) = none := by
  simp only [quoted?]
  split
  · cases cs with
    | nil => rfl
    | cons d cs => simp [quotedAfter, hcs d rfl]
  · have hquote : ¬(c = '"' ∨ c = '\'') := not_or.2 ⟨ne_of_class hc rfl, ne_of_class hc rfl⟩
    simp only [quotedAfter, hquote, if_false]

/-- **A word stands before text that closes it.** -/
theorem stand_word {w rest : List Char} (hw : isWord w = true) (hrest : Closes rest) :
    Stand [.word w] rest := by
  cases w with
  | nil => cases hw
  | cons c cs =>
      obtain ⟨hc, hcs⟩ : isWordStart c = true ∧ ∀ d ∈ cs, isWordPart d = true := by
        simpa [isWord] using hw
      -- A word `f` would become the marker of a quote after it.
      have hquoted : quoted? (c :: (cs ++ rest)) = none := by
        refine quoted?_of_isWordStart hc ?_
        cases cs with
        | nil => exact hrest.quote
        | cons d cs =>
            rintro _ ⟨⟩
            have hd := hcs d List.mem_cons_self
            exact ⟨ne_of_class hd rfl, ne_of_class hd rfl⟩
      refine stand_of_next rfl ?_
      rw [next, if_neg (ne_of_class hc rfl), hquoted]
      simp only [hc, if_true]
      rw [takeWhile_append_of_head hcs hrest.word, dropWhile_append_of_head hcs hrest.word]

/-! ### Numbers -/

/-- A text is digits, or digits with a point among them. -/
def isNumeral (cs : List Char) : Bool :=
  match cs.takeWhile Char.isDigit, cs.dropWhile Char.isDigit with
  | [], _ => false
  | _ :: _, [] => true
  | _ :: _, '.' :: part => !part.isEmpty && part.all Char.isDigit
  | _, _ => false

/-- A numeral is digits, with a fraction or without. -/
theorem exists_digits_of_isNumeral {cs : List Char} (h : isNumeral cs = true) :
    ∃ c whole part, cs = c :: (whole ++ part) ∧ c.isDigit = true ∧
      (∀ d ∈ whole, d.isDigit = true) ∧
      (part = [] ∨
        ∃ d ds, part = '.' :: d :: ds ∧ d.isDigit = true ∧ ∀ e ∈ ds, e.isDigit = true) := by
  have hcs := List.takeWhile_append_dropWhile (p := Char.isDigit) (l := cs)
  have hwhole : ∀ d ∈ cs.takeWhile Char.isDigit, d.isDigit = true :=
    List.all_eq_true.1 List.all_takeWhile
  unfold isNumeral at h
  split at h
  · cases h
  · rename_i c whole htake hdrop
    rw [htake] at hwhole hcs
    rw [hdrop] at hcs
    obtain ⟨hc, hwhole⟩ := List.forall_mem_cons.1 hwhole
    exact ⟨c, whole, [], hcs.symm, hc, hwhole, .inl rfl⟩
  · rename_i c whole part htake hdrop
    rw [htake] at hwhole hcs
    rw [hdrop] at hcs
    obtain ⟨hc, hwhole⟩ := List.forall_mem_cons.1 hwhole
    refine ⟨c, whole, '.' :: part, hcs.symm, hc, hwhole, .inr ?_⟩
    cases part with
    | nil => cases h
    | cons d ds =>
        obtain ⟨hd, hds⟩ : d.isDigit = true ∧ ∀ e ∈ ds, e.isDigit = true := by simpa using h
        exact ⟨d, ds, rfl, hd, hds⟩
  · cases h

theorem next_digit {c : Char} (hc : c.isDigit = true) (cs : List Char) :
    next c cs =
      (number (c :: cs.takeWhile Char.isDigit ++ (fraction (cs.dropWhile Char.isDigit)).1),
        (fraction (cs.dropWhile Char.isDigit)).2) := by
  have hword : isWordStart c = false := by
    refine Bool.eq_false_iff.2 fun hword => ?_
    rw [isDigit_eq_false_of_isWordStart hword] at hc
    cases hc
  have hmarker : ¬(c = 'f' ∨ c = 'F') := not_or.2 ⟨ne_of_class hc rfl, ne_of_class hc rfl⟩
  have hquote : ¬(c = '"' ∨ c = '\'') := not_or.2 ⟨ne_of_class hc rfl, ne_of_class hc rfl⟩
  have hquoted : quoted? (c :: cs) = none := by
    simp only [quoted?, quotedAfter, hmarker, hquote, if_false]
  rw [next, if_neg (ne_of_class hc rfl), hquoted]
  simp only [hword, hc, if_true]
  rfl

/-- **A number stands before text that closes it**: neither a digit nor a fraction
follows. -/
theorem stand_number {cs rest : List Char} (hcs : isNumeral cs = true) (hrest : Closes rest) :
    Stand [.number cs] rest := by
  obtain ⟨c, whole, part, rfl, hc, hwhole, hpart⟩ := exists_digits_of_isNumeral hcs
  have hdigit : ∀ d ∈ rest.head?, d.isDigit = false := by
    intro d hd
    have hclass := hrest.word d hd
    simp only [isWordPart, Char.isAlphanum, Bool.or_eq_false_iff] at hclass
    exact hclass.1.2
  refine stand_of_next rfl ?_
  rcases hpart with rfl | ⟨d, ds, rfl, hd, hds⟩
  · rw [next_digit hc, List.append_nil, takeWhile_append_of_head hwhole hdigit,
      dropWhile_append_of_head hwhole hdigit, hrest.number, List.append_nil]
  · have hdot : ∀ e ∈ ('.' :: d :: ds ++ rest).head?, e.isDigit = false := by
      rintro _ ⟨⟩
      rfl
    have hfraction : fraction ('.' :: d :: ds ++ rest) = ('.' :: d :: ds, rest) := by
      simp only [List.cons_append, fraction, hd, if_true]
      rw [takeWhile_append_of_head hds hdigit, dropWhile_append_of_head hds hdigit]
    rw [next_digit hc, List.append_assoc, takeWhile_append_of_head hwhole hdot,
      dropWhile_append_of_head hwhole hdot, hfraction]
    rfl

/-! ### Operators, delimiters and blanks -/

/-- The characters that make a longer operator of the one before them. -/
def extenders : List Char := ['=', '*', '/', '<', '>']

/-- An operator is the longest one that starts a text, unless the text after it
makes it longer. -/
theorem find?_operators {symbol rest : List Char} (hsymbol : symbol ∈ operators)
    (hrest : ∀ c ∈ rest.head?, c ∉ extenders) :
    operators.find? (·.isPrefixOf (symbol ++ rest)) = some symbol := by
  have hself : ∀ s ∈ operators, operators.find? (·.isPrefixOf s) = some s := by decide
  have hlonger : ∀ s ∈ operators, ∀ t ∈ operators, s.isPrefixOf t = true →
      (t.drop s.length).head?.all (· ∈ extenders) = true := by decide
  refine find?_isPrefixOf_append (hself symbol hsymbol) fun c tail hmem hhead => ?_
  have hextends := hlonger symbol hsymbol _ hmem
    (List.isPrefixOf_iff_prefix.2 (List.prefix_append ..))
  rw [List.drop_left] at hextends
  exact hrest c hhead (of_decide_eq_true hextends)

/-- An operator stands if what follows makes it no longer one. -/
theorem stand_operator {symbol rest : List Char} (hsymbol : symbol ∈ operators)
    (hrest : ∀ c ∈ rest.head?, c ∉ extenders) : Stand [.operator symbol] rest := by
  have hfind := find?_operators hsymbol hrest
  have hall : ∀ s ∈ operators, s.head?.all (fun c => c ≠ '#' && c ≠ 'f' && c ≠ 'F' && c ≠ '"' &&
      c ≠ '\'' && !isWordStart c && !c.isDigit) = true := by decide
  have hclass := hall symbol hsymbol
  cases symbol with
  | nil => exact absurd hsymbol (by decide)
  | cons c cs =>
      simp only [List.head?_cons, Option.all_some, Bool.and_eq_true, Bool.not_eq_true',
        decide_eq_true_eq] at hclass
      obtain ⟨⟨⟨⟨⟨⟨hhash, hf⟩, hF⟩, hdouble⟩, hsingle⟩, hword⟩, hdigit⟩ := hclass
      have hquoted : quoted? (c :: (cs ++ rest)) = none := by
        simp [quoted?, quotedAfter, hf, hF, hdouble, hsingle]
      have hop : operator? (c :: (cs ++ rest)) = some (.operator (c :: cs), rest) := by
        rw [operator?, ← List.cons_append, hfind]
        simp
      refine stand_of_next rfl ?_
      rw [next, if_neg hhash, hquoted]
      simp only [hword, hdigit, hop, Bool.false_eq_true, if_false]

theorem stand_delimiter {c : Char} (hc : c ∈ delimiters) (rest : List Char) :
    Stand [.delimiter c] rest := by
  refine stand_of_next rfl ?_
  simp only [delimiters, List.mem_cons, List.not_mem_nil, or_false] at hc
  rcases hc with rfl | rfl | rfl | rfl | rfl | rfl | rfl <;> rfl

theorem stand_dot (rest : List Char) : Stand [.dot] rest := stand_of_next rfl rfl

theorem stand_blanks {run rest : List Char} (hne : run ≠ [])
    (hrun : ∀ c ∈ run, isBlank c = true) (hrest : ∀ c ∈ rest.head?, isBlank c = false) :
    Stand [.blanks run] rest := by
  unfold Stand
  rw [spellAll_cons, spellAll_nil, List.append_nil]
  exact scan_blanks hne hrun hrest

/-! ### String literals -/

/-- A text can stand between two quotes: no quote and no line end in it goes without a
backslash, and every backslash takes a character along. -/
inductive IsBody (quote : Char) : List Char → Prop where
  | nil : IsBody quote []
  | plain {c : Char} {cs : List Char} :
      c ≠ '\\' → c ≠ quote → c ≠ '\n' → IsBody quote cs → IsBody quote (c :: cs)
  | escape {c : Char} {cs : List Char} :
      c ≠ '\n' → IsBody quote cs → IsBody quote ('\\' :: c :: cs)

/-- A literal is closed by the quote after it and not before. -/
theorem IsBody.quotedBody {quote : Char} (hquote : quote ≠ '\\') {body : List Char}
    (h : IsBody quote body) (rest : List Char) :
    quotedBody quote (body ++ quote :: rest) = some (body, rest) := by
  induction h with
  | nil => rw [List.nil_append, quotedBody_cons hquote, if_pos rfl]
  | plain hescape hne hline _ ih =>
      rw [List.cons_append, quotedBody_cons hescape, if_neg hne, if_neg hline, ih]
      rfl
  | escape hline _ ih =>
      rw [List.cons_append, List.cons_append, Lexeme.quotedBody, if_neg hline, ih]
      rfl

/-- Nothing, or the mark of an f-string. -/
def IsMarker (marker : List Char) : Prop := marker = [] ∨ marker = ['f'] ∨ marker = ['F']

theorem stand_of_quoted? {l : Lexeme} {c : Char} {cs rest : List Char}
    (hspelling : l.spelling = c :: cs) (hc : c ≠ '#')
    (h : quoted? (c :: (cs ++ rest)) = some (l, rest)) : Stand [l] rest :=
  stand_of_next hspelling (by rw [next, if_neg hc, h])

/-- A string literal stands before every text. -/
theorem stand_quoted {marker : List Char} (hmarker : IsMarker marker) {quote : Char}
    (hquote : quote = '"' ∨ quote = '\'') {body : List Char} (h : IsBody quote body)
    (rest : List Char) : Stand [.quoted marker quote body] rest := by
  have hfirst : quote ≠ '#' ∧ quote ≠ '\\' ∧ ¬(quote = 'f' ∨ quote = 'F') := by
    rcases hquote with rfl | rfl <;> decide
  have hafter : quotedAfter marker (quote :: ((body ++ [quote]) ++ rest)) =
      some (.quoted marker quote body, rest) := by
    rw [List.append_assoc, List.singleton_append, quotedAfter, if_pos hquote,
      h.quotedBody hfirst.2.1]
    rfl
  have hmarked {c : Char} (hc : c = 'f' ∨ c = 'F') (hm : marker = [c]) :
      Stand [.quoted marker quote body] rest := by
    subst hm
    refine stand_of_quoted? rfl (by rcases hc with rfl | rfl <;> decide) ?_
    rw [quoted?, if_pos hc]
    exact hafter
  rcases hmarker with rfl | hm | hm
  · refine stand_of_quoted? rfl hfirst.1 ?_
    rw [quoted?, if_neg hfirst.2.2, hafter]
  · exact hmarked (.inl rfl) hm
  · exact hmarked (.inr rfl) hm

end Offside.Lexeme

namespace Offside.Text

/-- The letter of the escape that spells a character in a literal with the given
quote, if it is not spelled by itself. -/
def escapeLetter? (quote c : Char) : Option Char :=
  if c = '\\' ∨ c = quote then some c
  else if c = '\n' then some 'n'
  else if c = '\t' then some 't'
  else if c = '\r' then some 'r'
  else if c = Char.ofNat 0 then some '0'
  else none

/-- The spelling of a character in a literal with the given quote. -/
def literalChar (quote c : Char) : List Char :=
  match escapeLetter? quote c with
  | some letter => ['\\', letter]
  | none => [c]

/-- The spelling of a text in a literal with the given quote. -/
def literalChars (quote : Char) (cs : List Char) : List Char := cs.flatMap (literalChar quote)

section

variable {quote : Char} (hquote : quote = '"' ∨ quote = '\'')

include hquote

/-- The letter of an escape gives back what was escaped. -/
theorem escaped?_of_escapeLetter? {c letter : Char} (h : escapeLetter? quote c = some letter) :
    escaped? letter = some c ∧ letter ≠ '\n' := by
  have hbackslash : escaped? '\\' = some '\\' := rfl
  have hself : escaped? quote = some quote ∧ quote ≠ '\n' := by
    rcases hquote with rfl | rfl <;> decide
  unfold escapeLetter? at h
  grind [escaped?]

/-- A character is spelled by an escape that stands for it or by itself. -/
theorem literalChar_cases (c : Char) :
    (∃ d, literalChar quote c = ['\\', d] ∧ escaped? d = some c ∧ d ≠ '\n') ∨
      literalChar quote c = [c] ∧ c ≠ '\\' ∧ c ≠ quote ∧ c ≠ '\n' := by
  unfold literalChar
  cases hletter : escapeLetter? quote c with
  | some letter => exact .inl ⟨letter, rfl, escaped?_of_escapeLetter? hquote hletter⟩
  | none =>
      unfold escapeLetter? at hletter
      exact .inr ⟨rfl, by grind⟩

/-- A literal stands for the text that it spells. -/
theorem unescapeChars_literalChars (cs : List Char) :
    unescapeChars (literalChars quote cs) = cs := by
  induction cs with
  | nil => rfl
  | cons c cs ih =>
      rw [literalChars, List.flatMap_cons]
      rcases literalChar_cases hquote c with ⟨d, hspell, hd, -⟩ | ⟨hspell, hescape, -⟩
      · rw [hspell, List.cons_append, List.cons_append, List.nil_append, unescapeChars, hd]
        exact congrArg (c :: ·) ih
      · rw [hspell, List.cons_append, List.nil_append, unescapeChars]
        · exact congrArg (c :: ·) ih
        · exact fun _ _ h => absurd h hescape

/-- **A text is read back from its literal.** -/
theorem unescape_literalChars (text : String) :
    unescape (String.ofList (literalChars quote text.toList)) = text := by
  rw [unescape, String.toList_ofList, unescapeChars_literalChars hquote, String.ofList_toList]

/-- The spelling of a text can stand between quotes. -/
theorem isBody_literalChars (cs : List Char) : Lexeme.IsBody quote (literalChars quote cs) := by
  induction cs with
  | nil => exact .nil
  | cons c cs ih =>
      rw [literalChars, List.flatMap_cons]
      rcases literalChar_cases hquote c with ⟨d, hspell, -, hline⟩ | ⟨hspell, hescape, hne, hline⟩
      · rw [hspell]
        exact .escape hline ih
      · rw [hspell]
        exact .plain hescape hne hline ih

end

end Offside.Text
