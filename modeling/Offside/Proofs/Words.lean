import Mathlib.Data.List.TakeWhile
import Offside.Proofs.Depth
import Offside.Proofs.Derivation.Failure
import Offside.Proofs.Lexical
import Offside.Proofs.Margins
import Offside.Proofs.Occurrence

/-!
# Offside.Proofs.Words

The tokens of a source are **whole words and numbers**. Main statement:
`tokens_are_whole`, about programs, about the expressions in placeholders, and about
the f-strings inside these at any depth.

Numbers are cut as digits with an optional fraction, and all such texts stand for a
number, so no source fails for an invalid one (`FString.read_ne_invalidNumber` goes
inside f-strings, `Grammar.Blames.ne_invalidNumber` through the grammar). A word is
cut up to the first character that cannot belong to it; whether it is reserved is
asked of all of it.
-/

namespace Offside

/-! ### Numbers -/

/-- The fraction of a number: none, or a point and digits. -/
def IsFraction (part : List Char) : Prop :=
  part = [] ∨ ∃ d ds, part = '.' :: d :: ds ∧ d.isDigit = true ∧ ∀ e ∈ ds, e.isDigit = true

/-- The digits before a fraction end where it starts. -/
theorem IsFraction.span {c : Char} {whole part : List Char} (hpart : IsFraction part)
    (hc : c.isDigit = true) (hwhole : ∀ d ∈ whole, d.isDigit = true) :
    (c :: (whole ++ part)).takeWhile Char.isDigit = c :: whole ∧
      (c :: (whole ++ part)).dropWhile Char.isDigit = part := by
  have hdigits : ∀ d ∈ c :: whole, d.isDigit = true := List.forall_mem_cons.2 ⟨hc, hwhole⟩
  have hpoint : ∀ d ∈ part.head?, d.isDigit = false := by
    rcases hpart with rfl | ⟨d, ds, rfl, -⟩
    · simp
    · rintro _ ⟨⟩
      rfl
  rw [← List.cons_append]
  exact ⟨Lexeme.takeWhile_append_of_head hdigits hpoint,
    Lexeme.dropWhile_append_of_head hdigits hpoint⟩

namespace Lexeme

theorem isFraction_fraction (cs : List Char) : IsFraction (fraction cs).1 := by
  unfold fraction
  split
  · rename_i c cs
    split
    · rename_i hc
      exact .inr ⟨c, cs.takeWhile Char.isDigit, rfl, hc, List.all_eq_true.1 List.all_takeWhile⟩
    · exact .inl rfl
  · exact .inl rfl

theorem isNumeral_of_isFraction {c : Char} {whole part : List Char} (hpart : IsFraction part)
    (hc : c.isDigit = true) (hwhole : ∀ d ∈ whole, d.isDigit = true) :
    isNumeral (c :: (whole ++ part)) = true := by
  obtain ⟨htake, hdrop⟩ := hpart.span hc hwhole
  rw [isNumeral, htake, hdrop]
  rcases hpart with rfl | ⟨d, ds, rfl, hd, hds⟩
  · rfl
  · simpa using ⟨hd, hds⟩

/-- A number is cut as digits, with a fraction if there is one. -/
theorem isNumeral_of_mem_scan {cs digits : List Char} (h : .number digits ∈ scan cs) :
    isNumeral digits = true := by
  obtain ⟨d, ds, hnext⟩ := exists_next_of_mem_scan h
  have hcut := next_cut d ds
  rw [hnext] at hcut
  cases hcut with
  | number tail _ hd =>
      rw [next_digit hd] at hnext
      obtain ⟨-, rfl⟩ := List.cons.inj (number.inj hnext)
      exact isNumeral_of_isFraction (isFraction_fraction _) hd
        (List.all_eq_true.1 List.all_takeWhile)

end Lexeme

namespace Numeral

theorem exists_decimal?_of_isFraction {c : Char} {whole part : List Char}
    (hpart : IsFraction part) (hc : c.isDigit = true) (hwhole : ∀ d ∈ whole, d.isDigit = true) :
    ∃ d, decimal? (c :: (whole ++ part)) = some d := by
  obtain ⟨htake, hdrop⟩ := hpart.span hc hwhole
  have hend : (fraction part).2 = [] := by
    rcases hpart with rfl | ⟨d, ds, rfl, hd, hds⟩
    · rfl
    · exact List.dropWhile_eq_nil_iff.2 (List.forall_mem_cons.2 ⟨hd, hds⟩)
  rw [decimal?, htake, hdrop]
  simp [hend, exponent?]

/-- Digits with an optional fraction stand for a number. -/
theorem exists_read?_of_isNumeral {text : String} (h : Lexeme.isNumeral text.toList = true) :
    ∃ value, read? text = some value := by
  obtain ⟨c, whole, part, htext, hc, hwhole, hpart⟩ := Lexeme.exists_digits_of_isNumeral h
  obtain ⟨d, hd⟩ := exists_decimal?_of_isFraction hpart hc hwhole
  unfold read?
  rw [htext, sign_of_isDigit hc]
  dsimp only
  split
  · exact ⟨_, rfl⟩
  · split
    · exact ⟨_, rfl⟩
    · exact ⟨_, by rw [hd, Option.map_some]⟩

end Numeral

/-! ### Words -/

namespace Lexeme

/-- A word is cut up to the first character that cannot belong to it. -/
theorem isWordPart_eq_false_after_word {cs letters : List Char} {front back : List Lexeme}
    (h : scan cs = front ++ .word letters :: back) {c : Char}
    (hc : c ∈ (back.flatMap spelling).head?) : isWordPart c = false := by
  obtain ⟨d, ds, hnext, hback⟩ := exists_next_of_scan_eq h
  have hcut := next_cut d ds
  rw [hback, flatMap_spelling_scan] at hc
  generalize (next d ds).2 = rest at hcut hc
  rw [hnext] at hcut
  cases hcut with
  | word _ => exact eq_false_of_head?_dropWhile hc

end Lexeme

namespace Token

/-- The words that name no variable. -/
def reserved : List String :=
  ["False", "None", "True", "and", "as", "await", "break", "class", "continue", "def", "del",
    "elif", "else", "except", "for", "from", "global", "if", "import", "in", "not", "or", "pass",
    "return", "try", "while"]

theorem mem_reserved_iff {text : String} :
    text ∈ reserved ↔ text.toList ∈ Lexeme.keywords := by
  have hkeywords : Lexeme.keywords = reserved.map String.toList := rfl
  rw [hkeywords, List.mem_map_of_injective fun _ _ => String.toList_inj.1]

/-- The character can stand in a word. -/
def IsWordChar (c : Char) : Prop := c.isAlphanum = true ∨ c = '_'

theorem isWordChar_iff {c : Char} : IsWordChar c ↔ Lexeme.isWordPart c = true := by
  simp [IsWordChar, Lexeme.isWordPart]

/-- The text of a token is one of its kind, and the kind is one that a source can have. -/
structure IsWhole (t : Token) : Prop where
  /-- A number is digits, with a fraction or without one. -/
  number : t.kind = .number → Lexeme.isNumeral t.text.toList = true
  /-- A word has letters, digits and underscores, and starts with no digit. -/
  word : t.kind = .keyword ∨ t.kind = .identifier →
    t.text.toList ≠ [] ∧ (∀ c ∈ t.text.toList, IsWordChar c) ∧
      ∀ c ∈ t.text.toList.head?, c.isDigit = false
  /-- A word is a keyword exactly if it is reserved. -/
  keyword : t.kind = .keyword ∨ t.kind = .identifier → (t.kind = .keyword ↔ t.text ∈ reserved)
  /-- An error is one character. -/
  error : t.kind = .error → ∃ c, t.text.toList = [c]
  kind : t.kind ≠ .comment ∧ t.kind ≠ .whitespace ∧ t.kind ≠ .eof

theorem IsWhole.of_isLayout {t : Token} (h : t.kind.isLayout = true) : t.IsWhole := by
  cases hkind : t.kind with
  | newline | indent | dedent =>
      constructor <;> simp [hkind]
  | _ => simp [hkind] at h

theorem exists_stray_of_token? {l : Lexeme} {line : Nat} {t : Token} (h : l.token? line = some t)
    (ht : t.kind = .error) : ∃ c, l = .stray c ∧ t.text.toList = [c] := by
  cases l with
  | stray c =>
      obtain rfl := Option.some.inj h
      exact ⟨c, rfl, by simp⟩
  | comment _ | blanks _ | newline => cases h
  | quoted marker _ _ => cases marker <;> (obtain rfl := Option.some.inj h; cases ht)
  | word letters =>
      obtain rfl := Option.some.inj h
      by_cases hletters : letters ∈ Lexeme.keywords <;> simp [hletters] at ht
  | number _ | operator _ | delimiter _ | dot =>
      obtain rfl := Option.some.inj h
      cases ht

theorem kind_of_token? {l : Lexeme} {line : Nat} {t : Token} (h : l.token? line = some t) :
    t.kind ≠ .comment ∧ t.kind ≠ .whitespace ∧ t.kind ≠ .eof := by
  cases l with
  | comment _ | blanks _ | newline => cases h
  | quoted marker _ _ => cases marker <;> (obtain rfl := Option.some.inj h; simp)
  | word letters =>
      obtain rfl := Option.some.inj h
      by_cases hletters : letters ∈ Lexeme.keywords <;> simp [hletters]
  | number _ | operator _ | delimiter _ | dot | stray _ =>
      obtain rfl := Option.some.inj h
      simp

theorem isWhole_of_lexeme {source : List Char} {l : Lexeme} (hl : l ∈ Lexeme.scan source)
    {line : Nat} {t : Token} (h : l.token? line = some t) : t.IsWhole where
  number ht := by
    obtain ⟨digits, rfl, htext⟩ := exists_number_of_token? h ht
    rw [htext, String.toList_ofList]
    exact Lexeme.isNumeral_of_mem_scan hl
  word ht := by
    obtain ⟨letters, rfl, htext, -⟩ := exists_word_of_token? h ht
    rw [htext, String.toList_ofList]
    have hword := Lexeme.isWord_of_mem_scan hl
    refine ⟨?_, fun c hc => isWordChar_iff.2 (Lexeme.isWordPart_of_mem_scan hl hc), ?_⟩
    · rintro rfl
      cases hword
    · intro c hc
      obtain ⟨rest, rfl⟩ := List.head?_eq_some_iff.1 hc
      exact Lexeme.isDigit_eq_false_of_isWordStart (Bool.and_eq_true_iff.1 hword).1
  keyword ht := by
    obtain ⟨letters, rfl, htext, hkeyword⟩ := exists_word_of_token? h ht
    rw [hkeyword, mem_reserved_iff, htext, String.toList_ofList]
  error ht := by
    obtain ⟨c, -, htext⟩ := exists_stray_of_token? h ht
    exact ⟨c, htext⟩
  kind := kind_of_token? h

theorem isWhole_of_mem_ofProgram {source : List Char} {t : Token} (h : t ∈ ofProgram source) :
    t.IsWhole := by
  cases hkind : t.kind.isLayout with
  | true => exact .of_isLayout hkind
  | false =>
      obtain ⟨l, hl, line, htoken⟩ := exists_lexeme_of_mem_ofProgram h hkind
      exact isWhole_of_lexeme hl htoken

theorem isWhole_of_mem_ofExpression {source : List Char} {line : Nat} {t : Token}
    (h : t ∈ ofExpression source line) : t.IsWhole := by
  obtain ⟨l, hl, n, htoken⟩ := exists_lexeme_of_mem_flatten h
  exact isWhole_of_lexeme hl htoken

/-- The tokens in placeholders are whole too, at any depth. -/
theorem OccursIn.isWhole {t : Token} {ts : List Token} (h : t.OccursIn ts)
    (hts : ∀ u ∈ ts, u.IsWhole) : t.IsWhole := by
  rcases h.exists_lexeme with ht | ⟨source, l, hl, line, htoken⟩
  · exact hts t ht
  · exact isWhole_of_lexeme hl htoken

/-! ### Where words end -/

/-- The pieces of a source have the tokens of the source as an expression, apart from the
line ends. -/
theorem filter_isLayout_pieces (source : List Char) (line : Nat) :
    ((pieces line (Lexeme.scan source)).filterMap Prod.snd).filter (fun t => !t.kind.isLayout) =
      ofExpression source line := by
  have hwritten (t : Token) : (!t.kind.isLayout && t.isWritten) = !t.kind.isLayout := by
    cases hkind : t.kind <;> simp [isWritten, hkind]
  rw [filterMap_snd_pieces line [] fun l hl => Lexeme.newline_not_mem_spelling hl,
    List.filter_filter]
  simp only [hwritten]
  exact filter_isLayout_layout line [] _

/-- The tokens of a source are whole, and its words end where they have to. -/
structure AreWhole (source : List Char) (ts : List Token) : Prop where
  /-- This holds of the tokens and of those in the placeholders of f-strings. -/
  isWhole : ∀ t : Token, t.OccursIn ts → t.IsWhole
  /-- The source is a row of pieces, each of which is passed over or stands for a token. The
  character after the piece of a word cannot stand in a word. -/
  exists_pieces : ∃ pieces : List (List Char × Option Token),
    (pieces.map Prod.fst).flatten = source ∧
    (pieces.filterMap Prod.snd).filter (fun t => !t.kind.isLayout) =
      ts.filter (fun t => !t.kind.isLayout) ∧
    (∀ before piece after, pieces = before ++ (piece, none) :: after → Lexeme.IsSkipped piece) ∧
    ∀ before piece t after, pieces = before ++ (piece, some t) :: after →
      t.IsWrittenAs piece ∧ (t.kind = .keyword ∨ t.kind = .identifier →
        ∀ c ∈ (after.map Prod.fst).flatten.head?, ¬ IsWordChar c)

theorem areWhole_of_filter {source : List Char} {ts : List Token} (line : Nat)
    (hts : ∀ t ∈ ts, t.IsWhole)
    (hfilter : ts.filter (fun t => !t.kind.isLayout) = ofExpression source line) :
    AreWhole source ts := by
  refine ⟨fun t ht => ht.isWhole hts, pieces line (Lexeme.scan source), ?_, ?_, ?_, ?_⟩
  · rw [map_fst_pieces, ← List.flatMap_def, Lexeme.flatMap_spelling_scan]
  · rw [filter_isLayout_pieces, hfilter]
  · intro before piece after hpieces
    obtain ⟨l, hl, rfl, htoken⟩ := exists_lexeme_of_pieces hpieces
    exact isSkipped_of_ofLexeme? hl htoken.symm
  · intro before piece t after hpieces
    obtain ⟨front, l, back, hscan, rfl, htoken, hafter⟩ := exists_split_of_pieces hpieces
    have hmem : l ∈ Lexeme.scan source := by simp [hscan]
    refine ⟨isWrittenAs_of_ofLexeme? hmem htoken.symm, fun ht c hc => ?_⟩
    have hl : l ≠ .newline := by
      rintro rfl
      obtain rfl := Option.some.inj htoken
      rcases ht with ht | ht <;> cases ht
    rw [ofLexeme?_of_ne hl] at htoken
    obtain ⟨letters, rfl, -⟩ := exists_word_of_token? htoken.symm ht
    rw [hafter] at hc
    rw [isWordChar_iff, Lexeme.isWordPart_eq_false_after_word hscan hc]
    exact Bool.false_ne_true

end Token

/-! ### No invalid numbers -/

theorem Token.IsWhole.exists_read? {t : Token} (h : t.IsWhole) (ht : t.kind = .number) :
    ∃ value, Numeral.read? t.text = some value :=
  Numeral.exists_read?_of_isNumeral (h.number ht)

/-- Reading fails for an invalid number only if a token is one, or an f-string among the
tokens fails for one. -/
theorem Grammar.Blames.ne_invalidNumber {ctx : Context} {ts : List Token} {e : Failure}
    (h : Blames ctx ts e) (hts : ∀ t ∈ ts, t.IsWhole) {line : Nat} {text : String}
    (hread : ∀ t ∈ ts, t.kind = .fstring →
      ctx.fstring t.text t.line ≠ .error (.parse line (.invalidNumber text))) :
    e ≠ .parse line (.invalidNumber text) := by
  rintro rfl
  cases h with
  | invalidNumber ht hkind hnone =>
      obtain ⟨value, hvalue⟩ := (hts _ ht).exists_read? hkind
      rw [hvalue] at hnone
      cases hnone
  | fstring ht hkind herror => exact hread _ ht hkind herror

theorem FString.read_ne_invalidNumber (content : List Char) (line line' : Nat) (text : String) :
    read content line ≠ .error (.parse line' (.invalidNumber text)) := by
  intro h
  -- The induction goes to the f-strings inside the text.
  induction content using wellFounded_isInside.induction generalizing line with
  | _ content ih =>
      cases fails_of_read h with
      | placeholder hsource hblames =>
          refine hblames.ne_invalidNumber (fun _ => Token.isWhole_of_mem_ofExpression) ?_ rfl
          intro t ht hkind herror
          exact ih t.text.toList ⟨_, hsource, line, t, ht, hkind, rfl⟩ t.line herror

theorem Program.parse_ne_invalidNumber (source : String) (line : Nat) (text : String) :
    parse source ≠ .error (.parse line (.invalidNumber text)) := by
  intro h
  refine (blames_of_ofTokens h).ne_invalidNumber (fun _ => Token.isWhole_of_mem_ofProgram) ?_ rfl
  intro t _ _
  exact FString.read_ne_invalidNumber t.text.toList t.line line text

/-- **Words and numbers are whole.** The tokens of a source, as a program or as an
expression, and those in the placeholders of f-strings at any depth have texts of their
kinds: a number is digits with an optional fraction, a word has letters, digits and
underscores, starts with no digit, and is a keyword exactly if it is reserved, an error is
one character, and there is no comment, blank or end among them. In the source, no word is
followed by a character that could belong to it. No program and no f-string is refused for
an invalid number. -/
theorem tokens_are_whole (source : String) :
    Token.AreWhole source.toList (Token.ofProgram source.toList) ∧
    (∀ line, Token.AreWhole source.toList (Token.ofExpression source.toList line)) ∧
    (∀ line text, Program.parse source ≠ .error (.parse line (.invalidNumber text))) ∧
    (∀ line line' text,
      FString.read source.toList line ≠ .error (.parse line' (.invalidNumber text))) := by
  refine ⟨?_, fun line => ?_, Program.parse_ne_invalidNumber source, fun line =>
    FString.read_ne_invalidNumber source.toList line⟩
  · refine Token.areWhole_of_filter 1 (fun _ => Token.isWhole_of_mem_ofProgram) ?_
    exact Token.filter_isLayout_layout 1 [] _
  · refine Token.areWhole_of_filter line (fun _ => Token.isWhole_of_mem_ofExpression) ?_
    rw [← Token.filter_isLayout_pieces, List.filter_filter]
    simp only [Bool.and_self]

-- A word that starts with a reserved one is none, and a word may start with a marker.
example : (Token.ofExpression "import int in inx fx f'y' 1.5.x".toList 1).map
      (fun t => (t.kind, t.text)) =
    [(.keyword, "import"), (.identifier, "int"), (.keyword, "in"), (.identifier, "inx"),
      (.identifier, "fx"), (.fstring, "y"), (.number, "1.5"), (.dot, "."), (.identifier, "x")] := by
  decide +kernel

end Offside
