import Offside.Proofs.Margins

/-!
# Offside.Proofs.LineEnds

A **carriage return before a line end** means nothing. Main statement:
`ofProgram_withReturns`, by which a source whose lines end with a carriage return
and a line feed has the tokens of the source whose lines end with a line feed.

The carriage return becomes part of a comment or of a run of blanks, or is a run of
blanks of its own (`next_append_return`); in no case is it a token. In front of it a
line is as blank as in front of the line feed, so the layout does not see it either
(`measure?_append_return`).
-/

namespace Offside

namespace Lexeme

/-! ### One lexeme before a carriage return -/

theorem isLineTail_return : IsLineTail ['\r'] := by
  refine ⟨?_, ?_, fun quote => rfl⟩
  · intro c hc
    exact .inr (Option.some.inj hc).symm
  · intro quote hquote
    rcases hquote with rfl | rfl <;> rfl

/-- A run of characters takes in one more at the end of the text, or stops before it
as it did before. -/
theorem dropWhile_append_singleton {p : Char → Bool} {c : Char} (hc : p c = true)
    (cs : List Char) :
    cs.dropWhile p = [] ∧ (cs ++ [c]).dropWhile p = [] ∨
      (cs ++ [c]).takeWhile p = cs.takeWhile p ∧
        (cs ++ [c]).dropWhile p = cs.dropWhile p ++ [c] := by
  induction cs with
  | nil => exact .inl ⟨rfl, by simp [hc]⟩
  | cons d cs ih =>
      by_cases hd : p d = true
      · simpa [hd] using ih
      · exact .inr (by simp [hd])

/-- The lexemes that are cut from the front of a text and from the same text with a
carriage return at its end: the carriage return is left over, or both texts are used
up by lexemes that are no tokens. -/
theorem next_append_return (c : Char) (cs : List Char) :
    next c (cs ++ ['\r']) = ((next c cs).1, (next c cs).2 ++ ['\r']) ∨
      ((next c cs).2 = [] ∧ (next c (cs ++ ['\r'])).2 = [] ∧
        ∀ n, Token.flatten n [(next c cs).1] = [] ∧
          Token.flatten n [(next c (cs ++ ['\r'])).1] = []) := by
  by_cases hhash : c = '#'
  · subst hhash
    have hrun := dropWhile_append_singleton (p := (· ≠ '\n')) (c := '\r') rfl cs
    rw [next_comment, next_comment]
    rcases hrun with ⟨hdrop, hdrop'⟩ | ⟨htake, hdrop⟩
    · exact .inr ⟨hdrop, hdrop', fun n => ⟨rfl, rfl⟩⟩
    · exact .inl (by rw [htake, hdrop])
  · cases hblank : isBlank c with
    | true =>
        have hrun := dropWhile_append_singleton (p := isBlank) (c := '\r') rfl cs
        rw [next_blank hblank, next_blank hblank]
        rcases hrun with ⟨hdrop, hdrop'⟩ | ⟨htake, hdrop⟩
        · exact .inr ⟨hdrop, hdrop', fun n => ⟨rfl, rfl⟩⟩
        · exact .inl (by rw [htake, hdrop])
    | false => exact .inl (next_append_tail isLineTail_return hhash hblank cs)

end Lexeme

namespace Token

open Lexeme (isMargin scan)

/-! ### One line -/

/-- A carriage return at the end of a text is no token. -/
theorem ofExpression_append_return (cs : List Char) (n : Nat) :
    ofExpression (cs ++ ['\r']) n = ofExpression cs n := by
  unfold ofExpression
  fun_induction scan cs generalizing n with
  | case1 =>
      rw [List.nil_append, Lexeme.scan_cons, Lexeme.next_blank rfl, List.dropWhile_nil,
        Lexeme.scan_nil]
      rfl
  | case2 c cs ih =>
      rw [List.cons_append, Lexeme.scan_cons]
      rcases Lexeme.next_append_return c cs with hnext | ⟨hrest, hrest', hnone⟩
      · rw [hnext]
        by_cases hl : (Lexeme.next c cs).1 = .newline
        · rw [hl]
          exact ih (n + 1)
        · rw [flatten_cons hl, flatten_cons hl, ih]
      · rw [hrest, hrest', Lexeme.scan_nil, (hnone n).1, (hnone n).2]

/-- A carriage return at the end of a line leaves its column as it is. -/
theorem measure?_append_return (cs : List Char) : measure? (cs ++ ['\r']) = measure? cs := by
  have hreturn : ∀ c ∈ ['\r'].head?, isMargin c = false := by simp [isMargin]
  unfold measure?
  rw [Lexeme.takeWhile_append_tail hreturn, Lexeme.dropWhile_append_tail hreturn]
  cases cs.dropWhile isMargin with
  | nil => rfl
  | cons c cs => rfl

/-! ### Sources -/

/-- A text with a carriage return before each line end. -/
def withReturns (source : List Char) : List Char :=
  source.flatMap fun c => if c = '\n' then ['\r', '\n'] else [c]

theorem withReturns_of_notMem {l : List Char} (hl : '\n' ∉ l) : withReturns l = l := by
  induction l with
  | nil => rfl
  | cons c l ih =>
      obtain ⟨hc, hl⟩ := not_or.1 (mt List.mem_cons.2 hl)
      rw [withReturns, List.flatMap_cons, if_neg (Ne.symm hc)]
      exact congrArg (c :: ·) (ih hl)

theorem withReturns_line {l : List Char} (hl : '\n' ∉ l) (rest : List Char) :
    withReturns (l ++ '\n' :: rest) = (l ++ ['\r']) ++ '\n' :: withReturns rest := by
  have hline := withReturns_of_notMem hl
  unfold withReturns at hline ⊢
  rw [List.flatMap_append, hline, List.flatMap_cons, if_pos rfl, List.append_assoc]
  rfl

theorem notMem_append_return {l : List Char} (hl : '\n' ∉ l) : '\n' ∉ l ++ ['\r'] := by
  simpa using hl

/-- From the start of a line on, carriage returns before line ends change no token. -/
theorem lineOn_withReturns (n : Nat) (blocks : List Nat) (source : List Char) :
    lineOn n blocks (scan (withReturns source)) = lineOn n blocks (scan source) := by
  -- By induction on the lines: one line more leaves the blocks and the tokens as they are.
  induction source using Lexeme.lineInduction generalizing n blocks with
  | last l hl => rw [withReturns_of_notMem hl]
  | line l rest hl ih =>
      have hshift : shiftAt n (scan (l ++ ['\r'])) blocks = shiftAt n (scan l) blocks := by
        rw [shiftAt, shiftAt, column?_scan, column?_scan, measure?_append_return]
      rw [withReturns_line hl, lineOn_line (notMem_append_return hl), lineOn_line hl, hshift,
        ofExpression_append_return, ih]

/-- **Carriage returns before the line ends of a source change nothing**: not one
token, nor its line. The source may have carriage returns already. -/
theorem ofProgram_withReturns (source : List Char) :
    ofProgram (withReturns source) = ofProgram source := by
  unfold ofProgram
  cases source using Lexeme.lineInduction with
  | last l hl => rw [withReturns_of_notMem hl]
  | line l rest hl =>
      rw [withReturns_line hl, layout_line (notMem_append_return hl), layout_line hl,
        ofExpression_append_return, lineOn_withReturns]

end Token

end Offside
