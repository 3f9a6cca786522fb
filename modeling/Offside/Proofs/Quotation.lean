import Offside.Proofs.Derivation.Statement
import Offside.Proofs.Interpolation
import Offside.Proofs.Spelling

/-!
# Offside.Proofs.Quotation

String literals carry **any text**. Main statement: `parse_quotation`, by which a
text that is spelled between quotes is one token, whatever is in it, and stands for
that text; so is one that is spelled in an f-string, with its braces doubled.

A literal is gone through three times: up to its closing quote, at its braces, and
at its backslashes. The first of these takes no notice of braces, so doubling them
does not move the closing quote (`Lexeme.IsBody.encode`); the second takes no notice
of backslashes, and what it leaves is the spelling that the third one reads.
-/

namespace Offside

open Grammar

/-! ### Doubled braces between quotes -/

theorem FString.brace_cases (c : Char) :
    FString.encodeChar c = [c] ∨ FString.encodeChar c = [c, c] ∧ (c = '\x7b' ∨ c = '\x7d') := by
  by_cases h : c = '\x7b' ∨ c = '\x7d'
  · exact .inr ⟨if_pos h, h⟩
  · exact .inl (if_neg h)

/-- With its braces doubled, a text still stands between quotes. A brace that follows
a backslash goes with it, and its double stands alone. -/
theorem Lexeme.IsBody.encode {quote : Char} (hquote : quote = '"' ∨ quote = '\'')
    {body : List Char} (h : IsBody quote body) : IsBody quote (FString.encode body) := by
  have hbrace {c : Char} (hc : c = '\x7b' ∨ c = '\x7d') : c ≠ '\\' ∧ c ≠ quote ∧ c ≠ '\n' := by
    rcases hc with rfl | rfl <;> rcases hquote with rfl | rfl <;> decide
  induction h with
  | nil => exact .nil
  | @plain c cs hescape hne hline _ ih =>
      rw [FString.encode_cons]
      rcases FString.brace_cases c with hc | ⟨hc, -⟩
      · rw [hc]
        exact .plain hescape hne hline ih
      · rw [hc]
        exact .plain hescape hne hline (.plain hescape hne hline ih)
  | @escape c cs hline _ ih =>
      have hbackslash : FString.encodeChar '\\' = ['\\'] := rfl
      rw [FString.encode_cons, FString.encode_cons, hbackslash]
      rcases FString.brace_cases c with hc | ⟨hc, hdouble⟩
      · rw [hc]
        exact .escape hline ih
      · rw [hc]
        obtain ⟨hescape, hne, hline'⟩ := hbrace hdouble
        exact .escape hline (.plain hescape hne hline' ih)

/-! ### A literal by itself -/

/-- The token of a literal on the first line. -/
def quotedToken (marker body : List Char) : Token :=
  ⟨if marker = [] then .string else .fstring, String.ofList body, 1⟩

theorem Token.ofProgram_quoted {marker : List Char} (hmarker : Lexeme.IsMarker marker)
    {quote : Char} (hquote : quote = '"' ∨ quote = '\'') {body : List Char}
    (h : Lexeme.IsBody quote body) :
    ofProgram (marker ++ quote :: (body ++ [quote])) = [quotedToken marker body] := by
  have hstand := Lexeme.stand_quoted hmarker hquote h []
  have hscan : Lexeme.scan (marker ++ quote :: (body ++ [quote])) =
      [.quoted marker quote body] := by
    simpa [Lexeme.Stand, Lexeme.spelling] using hstand
  rw [ofProgram, hscan]
  cases marker <;> rfl

/-- A token that is an expression by itself is a program. -/
theorem Program.ofTokens_atom {t : Token} {e : Expr} (h : Forms fstringReader (.atom e) [t]) :
    ofTokens [t] = .ok ⟨[.expr e]⟩ := by
  have hsimple : Simple fstringReader (.expr e) [t] := .expr (.ofUnary (.ofPrimary (.ofAtom h)))
  exact ofTokens_eq_ok_iff.2 (.statement (.line hsimple (by simp [EndsLine])) .done)

/-- A text with its braces doubled is read as this text, without placeholders. -/
theorem FString.read_encode (text : List Char) (line : Nat) :
    read (encode text) line = .ok ([quasi text], []) := by
  have hweave : encode text = weave text [] := (List.append_nil _).symm
  rw [read_eq, hweave, cut_weave (by simp)]
  exact Body.read_ofHoles (by simp) text

/-- **String literals carry any text.** Between either of the quotes, a text is
written with escapes for the backslash, this quote, the line end, the tab, the
carriage return and the character zero. The source is then one token, and a program
that is the literal with this text. Marked as an f-string and with its braces doubled,
it is one token too, and an f-string with this text and no placeholders. -/
theorem parse_quotation (text : String) {quote : Char} (hquote : quote = '"' ∨ quote = '\'') :
    (let body := Text.literalChars quote text.toList
    let source := quote :: (body ++ [quote])
    Token.ofProgram source = [⟨.string, String.ofList body, 1⟩] ∧
      Program.parse (String.ofList source) = .ok ⟨[.expr (.literal (.string text))]⟩) ∧
    ∀ marker, marker = 'f' ∨ marker = 'F' →
      let body := FString.encode (Text.literalChars quote text.toList)
      let source := marker :: quote :: (body ++ [quote])
      Token.ofProgram source = [⟨.fstring, String.ofList body, 1⟩] ∧
        Program.parse (String.ofList source) = .ok ⟨[.expr (.fstring [text] [])]⟩ := by
  have hbody := Text.isBody_literalChars hquote text.toList
  have htext := Text.unescape_literalChars hquote text
  refine ⟨?_, fun marker hmarker => ?_⟩
  · intro body source
    have htokens : Token.ofProgram source = [⟨.string, String.ofList body, 1⟩] :=
      Token.ofProgram_quoted (.inl rfl) hquote hbody
    have hform : Forms Program.fstringReader _ [⟨.string, String.ofList body, 1⟩] := .string rfl
    refine ⟨htokens, ?_⟩
    rw [Program.parse, String.toList_ofList, htokens, Program.ofTokens_atom hform, htext]
  · intro body source
    have hmarked : Lexeme.IsMarker [marker] := .inr (by simpa using hmarker)
    have htokens : Token.ofProgram source = [⟨.fstring, String.ofList body, 1⟩] :=
      Token.ofProgram_quoted hmarked hquote (hbody.encode hquote)
    have hread : Program.fstringReader (String.ofList body) 1 = .ok ([text], []) := by
      rw [Program.fstringReader, String.toList_ofList, FString.read_encode, FString.quasi, htext]
    refine ⟨htokens, ?_⟩
    rw [Program.parse, String.toList_ofList, htokens]
    exact Program.ofTokens_atom (.fstring rfl hread)

/-- A backslash, both quotes, braces and a line end. -/
def troublesome : String := "\\\"\x7b\\'\x7d\n"

theorem parse_quotation_troublesome :
    ('\'' = '"' ∨ '\'' = '\'') ∧
    Program.parse "'\\\\\"\x7b\\\\\\'\x7d\\n'" = .ok ⟨[.expr (.literal (.string troublesome))]⟩ ∧
    Program.parse "F'\\\\\"\x7b\x7b\\\\\\'\x7d\x7d\\n'" =
      .ok ⟨[.expr (.fstring [troublesome] [])]⟩ := by
  obtain ⟨⟨-, hliteral⟩, hmarked⟩ := parse_quotation troublesome (.inr rfl)
  exact ⟨.inr rfl, hliteral, (hmarked 'F' (.inr rfl)).2⟩

end Offside
