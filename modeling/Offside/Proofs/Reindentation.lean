import Mathlib.Order.Monotone.Basic
import Offside.Ast.Equality
import Offside.Proofs.Margins

/-!
# Offside.Proofs.Reindentation

Of the columns of a source **only the order matters**. Main statement:
`reindent_preserves`. If the margins of all lines are replaced by margins of spaces
whose lengths are in the same order, the tokens stay as they are, but for the columns
that the tokens of blocks carry; and the source stands for the same program.

The two readings go in step, line by line, with the columns `blocks` open in the one
and `blocks.map f` in the other (`shift_map` for one line, `lineOn_reindent` for the
whole source).
-/

namespace Offside

namespace Token

open Lexeme (isMargin scan)

/-! ### Columns of tokens -/

/-- The column that the token of a block carries. -/
def blockColumn (t : Token) : Nat := Nat.ofDigitChars 10 t.text.toList 0

/-- Give the token of a block another column. All other tokens stay as they are. -/
def moveColumn (f : Nat → Nat) (t : Token) : Token :=
  if t.kind = .indent ∨ t.kind = .dedent then { t with text := toString (f t.blockColumn) } else t

variable {f : Nat → Nat}

theorem ofDigitChars_toString (n : Nat) : Nat.ofDigitChars 10 (toString n).toList 0 = n := by
  rw [Nat.toString_eq_repr, Nat.toList_repr, Nat.ofDigitChars_ten_toDigits]

theorem moveColumn_indent (n column : Nat) :
    moveColumn f (indent n column) = indent n (f column) := by
  rw [moveColumn, if_pos (.inl rfl), blockColumn, indent, ofDigitChars_toString, indent]

theorem moveColumn_dedent (n column : Nat) :
    moveColumn f (dedent n column) = dedent n (f column) := by
  rw [moveColumn, if_pos (.inr rfl), blockColumn, dedent, ofDigitChars_toString, dedent]

theorem moveColumn_newline (n : Nat) : moveColumn f (newline n) = newline n := by
  rw [moveColumn, if_neg (by simp [newline])]

theorem moveColumn_of_isLayout {t : Token} (h : t.kind.isLayout = false) : moveColumn f t = t := by
  rw [moveColumn, if_neg]
  rintro (hkind | hkind) <;> simp [hkind] at h

theorem map_moveColumn_dedent (n : Nat) (blocks : List Nat) :
    (blocks.map (dedent n)).map (moveColumn f) = (blocks.map f).map (dedent n) := by
  rw [List.map_map, List.map_map]
  exact List.map_congr_left fun column _ => moveColumn_dedent n column

/-- The tokens of an expression carry no columns. -/
theorem map_moveColumn_ofExpression (cs : List Char) (n : Nat) :
    (ofExpression cs n).map (moveColumn f) = ofExpression cs n := by
  have hlayout : ∀ t ∈ ofExpression cs n, t.kind.isLayout = false := by
    intro t ht
    rw [← filter_isLayout_layout n []] at ht
    simpa using (List.mem_filter.1 ht).2
  rw [List.map_congr_left fun t ht => moveColumn_of_isLayout (hlayout t ht), List.map_id']

/-! ### One line -/

/-- A line with `f n` spaces in place of its margin, where `n` is the length of the
margin. -/
def reindentLine (f : Nat → Nat) (l : List Char) : List Char :=
  List.replicate (f (l.takeWhile isMargin).length) ' ' ++ l.dropWhile isMargin

theorem takeWhile_reindentLine (l : List Char) :
    (reindentLine f l).takeWhile isMargin =
      List.replicate (f (l.takeWhile isMargin).length) ' ' := by
  refine Lexeme.takeWhile_append_of_head (fun c hc => ?_)
    fun c => Lexeme.eq_false_of_head?_dropWhile
  rw [List.eq_of_mem_replicate hc]
  rfl

theorem dropWhile_reindentLine (l : List Char) :
    (reindentLine f l).dropWhile isMargin = l.dropWhile isMargin := by
  refine Lexeme.dropWhile_append_of_head (fun c hc => ?_)
    fun c => Lexeme.eq_false_of_head?_dropWhile
  rw [List.eq_of_mem_replicate hc]
  rfl

theorem newline_notMem_reindentLine {l : List Char} (hl : '\n' ∉ l) :
    '\n' ∉ reindentLine f l := by
  intro hmem
  rcases List.mem_append.1 hmem with hspace | hbody
  · exact absurd (List.eq_of_mem_replicate hspace) (by decide)
  · exact hl ((List.dropWhile_suffix isMargin).subset hbody)

theorem ofExpression_reindentLine (l : List Char) (n : Nat) :
    ofExpression (reindentLine f l) n = ofExpression l n := by
  rw [← ofExpression_dropWhile_isMargin, dropWhile_reindentLine, ofExpression_dropWhile_isMargin]

/-- The column moves with the margin, and a line without a column stays without. -/
theorem measure?_reindentLine (l : List Char) :
    measure? (reindentLine f l) = (measure? l).map f := by
  unfold measure?
  rw [takeWhile_reindentLine, dropWhile_reindentLine, List.length_replicate]
  split <;> rfl

/-! ### The open blocks -/

section

variable (hf : StrictMono f) (hzero : f 0 = 0)
include hf hzero

/-- A line does to moved blocks what it does to the blocks, moved. -/
theorem shift_map (n column : Nat) (blocks : List Nat) :
    shift n (f column) (blocks.map f) =
      ((shift n column blocks).1.map (moveColumn f), (shift n column blocks).2.map f) := by
  have hhead : (blocks.map f).headD 0 = f (blocks.headD 0) := by
    cases blocks with
    | nil => exact hzero.symm
    | cons block blocks => rfl
  have hdeeper : (fun block => decide (f column < block)) ∘ f =
      fun block => decide (column < block) := by
    funext block
    exact decide_eq_decide.2 hf.lt_iff_lt
  unfold shift
  rw [hhead, List.takeWhile_map, List.dropWhile_map, hdeeper]
  by_cases hopens : blocks.headD 0 < column
  · rw [if_pos (hf hopens), if_pos hopens, List.map_singleton, moveColumn_indent]
    rfl
  · rw [if_neg (fun h => hopens (hf.lt_iff_lt.1 h)), if_neg hopens, map_moveColumn_dedent]

theorem shiftAt_reindentLine (n : Nat) (l : List Char) (blocks : List Nat) :
    shiftAt n (scan (reindentLine f l)) (blocks.map f) =
      ((shiftAt n (scan l) blocks).1.map (moveColumn f),
        (shiftAt n (scan l) blocks).2.map f) := by
  rw [shiftAt, shiftAt, column?_scan, column?_scan, measure?_reindentLine]
  cases measure? l with
  | none => rfl
  | some column => exact shift_map hf hzero n column blocks

end

/-! ### Sources -/

/-- A source with `f n` spaces in place of each margin of length `n`. -/
def reindent (f : Nat → Nat) (source : List Char) : List Char :=
  ['\n'].intercalate ((source.splitOn '\n').map (reindentLine f))

theorem reindent_lastLine {l : List Char} (hl : '\n' ∉ l) : reindent f l = reindentLine f l := by
  rw [reindent, List.splitOn_eq_singleton hl, List.map_singleton, List.intercalate_singleton]

theorem reindent_line {l : List Char} (hl : '\n' ∉ l) (rest : List Char) :
    reindent f (l ++ '\n' :: rest) = reindentLine f l ++ '\n' :: reindent f rest := by
  have hne : (rest.splitOn '\n').map (reindentLine f) ≠ [] := by
    simp [List.splitOn_ne_nil]
  rw [reindent, List.splitOn_append_cons_self_of_not_mem hl, List.map_cons,
    List.intercalate_cons_of_ne_nil hne, List.append_assoc]
  rfl

/-- From the start of a line on, the two sources have the same tokens but for the
columns, if the open blocks differ in the same way. -/
theorem lineOn_reindent (hf : StrictMono f) (hzero : f 0 = 0) (n : Nat) (blocks : List Nat)
    (source : List Char) :
    lineOn n (blocks.map f) (scan (reindent f source)) =
      (lineOn n blocks (scan source)).map (moveColumn f) := by
  -- By induction on the lines. The blocks that a line leaves open are again those of the
  -- other source, moved.
  induction source using Lexeme.lineInduction generalizing n blocks with
  | last l hl =>
      rw [reindent_lastLine hl, lineOn_lastLine (newline_notMem_reindentLine hl),
        lineOn_lastLine hl, shiftAt_reindentLine hf hzero, ofExpression_reindentLine,
        List.map_append, List.map_append, map_moveColumn_ofExpression, map_moveColumn_dedent]
  | line l rest hl ih =>
      rw [reindent_line hl, lineOn_line (newline_notMem_reindentLine hl), lineOn_line hl,
        shiftAt_reindentLine hf hzero, ofExpression_reindentLine, List.map_append,
        List.map_append, map_moveColumn_ofExpression, List.map_cons, moveColumn_newline, ← ih]

/-- The line on which the source starts has no column, so its margin is passed over. -/
theorem ofProgram_reindent (hf : StrictMono f) (hzero : f 0 = 0) (source : List Char) :
    ofProgram (reindent f source) = (ofProgram source).map (moveColumn f) := by
  unfold ofProgram
  cases source using Lexeme.lineInduction with
  | last l hl =>
      rw [reindent_lastLine hl, layout_lastLine (newline_notMem_reindentLine hl),
        layout_lastLine hl, ofExpression_reindentLine, List.map_append,
        map_moveColumn_ofExpression]
      rfl
  | line l rest hl =>
      rw [reindent_line hl, layout_line (newline_notMem_reindentLine hl), layout_line hl,
        ofExpression_reindentLine, List.map_append, map_moveColumn_ofExpression, List.map_cons,
        moveColumn_newline, ← lineOn_reindent hf hzero]
      rfl

/-- The grammar does not look at the columns. -/
theorem like_map_moveColumn (ts : List Token) :
    Grammar.Like id id ts (ts.map (moveColumn f)) := by
  have hmoved : ∀ t : Token, t.Same (moveColumn f t) ∧ (moveColumn f t).line = t.line := by
    intro t
    unfold moveColumn
    split
    · rename_i hkind
      refine ⟨⟨rfl, fun hlayout => ?_⟩, rfl⟩
      rcases hkind with hkind | hkind <;> simp [hkind] at hlayout
    · exact ⟨⟨rfl, fun _ => rfl⟩, rfl⟩
  induction ts with
  | nil => exact .nil
  | cons t ts ih =>
      obtain ⟨hsame, hline⟩ := hmoved t
      by_cases hkind : t.kind = .newline
      · exact .newline hkind (hsame.kind.trans hkind) ih
      · exact .cons hkind hsame hline.symm ih

end Token

/-- Tokens that are alike and on the same lines form the same program. -/
theorem Program.ofTokens_of_like_id {ts us : List Token} (h : Grammar.Like id id ts us)
    {p : Program} (hp : ofTokens ts = .ok p) : ofTokens us = .ok p := by
  have hstep : ∀ l k : Nat, id l = id k → id (l + 1) = id (k + 1) :=
    fun l k hline => congrArg (· + 1) hline
  obtain ⟨q, hq, hlines⟩ := ofTokens_like hstep h hp
  rw [mapLines_id, mapLines_id] at hlines
  rwa [← hlines]

/-- **Only the order of the columns matters.** If the margin of each line is replaced by
spaces, `f n` of them for a margin of `n` spaces and tabs, where `f` keeps the order
of columns and column zero, then the tokens are the same except that a block at column
`c` is now at column `f c`; and the source is read as a program exactly if it was
before, and as the same one. -/
theorem reindent_preserves {f : Nat → Nat} (hf : StrictMono f) (hzero : f 0 = 0)
    (source : String) :
    Token.ofProgram (Token.reindent f source.toList) =
        (Token.ofProgram source.toList).map (Token.moveColumn f) ∧
      ∀ p, Program.parse (String.ofList (Token.reindent f source.toList)) = .ok p ↔
        Program.parse source = .ok p := by
  have htokens := Token.ofProgram_reindent hf hzero source.toList
  have hlike := Token.like_map_moveColumn (f := f) (Token.ofProgram source.toList)
  refine ⟨htokens, fun p => ?_⟩
  rw [Program.parse, Program.parse, String.toList_ofList, htokens]
  exact ⟨Program.ofTokens_of_like_id hlike.symm, Program.ofTokens_of_like_id hlike⟩

/-- A block with a tab in its margin, and after it a line at a column between that of
the block and zero. -/
def unevenSource : String := "if a:\n\t  b = e\n# note\n  c + d"

theorem reindent_preserves_uneven :
    Token.ofProgram "if a:\n       b = e\n# note\n     c + d".toList =
        (Token.ofProgram unevenSource.toList).map (Token.moveColumn fun n => 2 * n + min n 1) ∧
      Program.parse "if a:\n       b = e\n# note\n     c + d" =
        .ok ⟨[.ifElse (.ident "a") [.assign (.ident "b") (.ident "e")] .none,
          .expr (.binary (.ident "c") .add (.ident "d") 4)]⟩ := by
  have hmono : StrictMono fun n : Nat => 2 * n + min n 1 := by
    intro m n hlt
    dsimp only
    omega
  have hreindent : Token.reindent (fun n => 2 * n + min n 1) unevenSource.toList =
      "if a:\n       b = e\n# note\n     c + d".toList := by decide +kernel
  obtain ⟨htokens, hparse⟩ := reindent_preserves hmono rfl unevenSource
  rw [hreindent] at htokens hparse
  exact ⟨htokens, (hparse _).2 (Program.parse_eq_ok (by decide +kernel))⟩

end Offside
