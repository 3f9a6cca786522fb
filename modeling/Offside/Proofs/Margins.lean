import Offside.Proofs.Derivation.Likeness
import Offside.Proofs.Neighbours

/-!
# Offside.Proofs.Margins

The **margin** of a line, the spaces and tabs at its start, is all that the layout
takes from the text of the line. The layout finds it among the lexemes, where a
carriage return after the margin is part of the same run of blanks;
`column?_scan` says what this comes to in characters.

Apart from the margin a line is read in a program as it is read in an expression:

* `lineOn_line` and `lineOn_lastLine` give the tokens of a program line by line, as
  what the margin does to the open blocks and the tokens of the line as an
  expression;
* `run` reads either from the characters, and differs between the two in what it
  does where a line starts;
* `ofExpression_eq_filter_ofProgram` is the main statement: without the tokens of
  the layout, the tokens of a program are those of an expression.
-/

namespace Offside

namespace Lexeme

/-! ### Blanks at the start of a text -/

/-- Spaces and tabs make up the margin of a line. -/
def isMargin (c : Char) : Bool := c = ' ' || c = '\t'

theorem isBlank_eq (c : Char) : isBlank c = (isMargin c || c = '\r') := rfl

/-- The margin is the first part of the blanks at the start of a text. -/
theorem dropWhile_isBlank_dropWhile_isMargin (cs : List Char) :
    (cs.dropWhile isMargin).dropWhile isBlank = cs.dropWhile isBlank := by
  have hmargin : ∀ c ∈ cs.takeWhile isMargin, isBlank c = true := by
    intro c hc
    rw [isBlank_eq, List.all_eq_true.1 List.all_takeWhile c hc, Bool.true_or]
  have hsplit : (cs.takeWhile isMargin ++ cs.dropWhile isMargin).dropWhile isBlank =
      (cs.dropWhile isMargin).dropWhile isBlank := List.dropWhile_append_of_pos hmargin
  rw [List.takeWhile_append_dropWhile] at hsplit
  exact hsplit.symm

/-- The margin ends at a carriage return. -/
theorem head?_dropWhile_isMargin {cs : List Char} (h : '\r' ∈ cs.takeWhile isBlank) :
    (cs.dropWhile isMargin).head? = some '\r' := by
  induction cs with
  | nil => simp at h
  | cons c cs ih =>
      by_cases hmargin : isMargin c = true
      · have hblank : isBlank c = true := by rw [isBlank_eq, hmargin, Bool.true_or]
        have hne : '\r' ≠ c := by
          intro heq
          rw [← heq] at hmargin
          cases hmargin
        rw [List.takeWhile_cons_of_pos hblank] at h
        rw [List.dropWhile_cons_of_pos hmargin]
        exact ih ((List.mem_cons.1 h).resolve_left hne)
      · by_cases hreturn : c = '\r'
        · rw [List.dropWhile_cons_of_neg hmargin, hreturn]
          rfl
        · have hblank : ¬ isBlank c = true := by simp [isBlank_eq, hmargin, hreturn]
          rw [List.takeWhile_cons_of_neg hblank] at h
          cases h

/-- Without a carriage return, the blanks at the start of a text are its margin. -/
theorem takeWhile_isMargin {cs : List Char} (h : '\r' ∉ cs.takeWhile isBlank) :
    cs.takeWhile isMargin = cs.takeWhile isBlank ∧
      cs.dropWhile isMargin = cs.dropWhile isBlank := by
  induction cs with
  | nil => exact ⟨rfl, rfl⟩
  | cons c cs ih =>
      by_cases hblank : isBlank c = true
      · rw [List.takeWhile_cons_of_pos hblank, List.mem_cons, not_or] at h
        have hmargin : isMargin c = true := by
          simpa [isBlank_eq, Ne.symm h.1] using hblank
        obtain ⟨htake, hdrop⟩ := ih h.2
        rw [List.takeWhile_cons_of_pos hmargin, List.takeWhile_cons_of_pos hblank,
          List.dropWhile_cons_of_pos hmargin, List.dropWhile_cons_of_pos hblank, htake, hdrop]
        exact ⟨rfl, rfl⟩
      · have hmargin : ¬ isMargin c = true := by
          intro hmargin
          simp [isBlank_eq, hmargin] at hblank
        simp [hmargin, hblank]

end Lexeme

namespace Token

open Lexeme (isBlank isMargin scan)

/-! ### The column of a line -/

/-- The column at which a line starts, if it takes part in the layout: the length of
its margin, unless the line ends there, or a comment or a carriage return
follows. -/
def measure? (cs : List Char) : Option Nat :=
  if (cs.dropWhile isMargin).head?.all (['\n', '\r', '#'].contains ·) then none
  else some (cs.takeWhile isMargin).length

/-- A text starts with a line end or a comment exactly if it starts with their
character. -/
theorem restIsBare_scan (cs : List Char) :
    restIsBare (scan cs) = cs.head?.all (['\n', '#'].contains ·) := by
  cases cs with
  | nil =>
      rw [Lexeme.scan_nil]
      rfl
  | cons c cs =>
      rw [Lexeme.scan_cons]
      by_cases hbare : c = '\n' ∨ c = '#'
      · rcases hbare with rfl | rfl <;> rfl
      · obtain ⟨hnewline, hhash⟩ := not_or.1 hbare
        have hcut := Lexeme.next_cut c cs
        generalize (Lexeme.next c cs).1 = l, (Lexeme.next c cs).2 = rest at hcut
        cases hcut with
        | comment hc => exact absurd hc hhash
        | newline hc => exact absurd hc hnewline
        | _ => simp [restIsBare, hnewline, hhash]

/-- The column that the lexemes of a text give, by the blanks at its start. -/
theorem column?_scan_blanks (cs : List Char) :
    column? (scan cs) =
      if '\r' ∈ cs.takeWhile isBlank ∨ restIsBare (scan (cs.dropWhile isBlank)) = true then none
      else some (cs.takeWhile isBlank).length := by
  cases cs with
  | nil => simp [column?, restIsBare]
  | cons c cs =>
      by_cases hblank : isBlank c = true
      · rw [Lexeme.scan_cons, Lexeme.next_blank hblank, List.takeWhile_cons_of_pos hblank,
          List.dropWhile_cons_of_pos hblank]
        rfl
      · rw [List.takeWhile_cons_of_neg hblank, List.dropWhile_cons_of_neg hblank, Lexeme.scan_cons]
        have hcut := Lexeme.next_cut c cs
        generalize (Lexeme.next c cs).1 = l, (Lexeme.next c cs).2 = rest at hcut
        cases hcut with
        | blanks hc => exact absurd hc hblank
        | _ => simp [column?]

/-- The column of a line in characters. -/
theorem column?_scan (cs : List Char) : column? (scan cs) = measure? cs := by
  rw [column?_scan_blanks, restIsBare_scan, measure?]
  by_cases hreturn : '\r' ∈ cs.takeWhile isBlank
  · rw [if_pos (.inl hreturn), Lexeme.head?_dropWhile_isMargin hreturn]
    rfl
  · obtain ⟨htake, hdrop⟩ := Lexeme.takeWhile_isMargin hreturn
    have hstop : ∀ c ∈ (cs.dropWhile isBlank).head?, c ≠ '\r' := by
      intro c hc heq
      rw [heq] at hc
      cases Lexeme.eq_false_of_head?_dropWhile hc
    rw [htake, hdrop]
    cases hhead : (cs.dropWhile isBlank).head? with
    | none => simp
    | some c => simp [hreturn, hstop c hhead]

/-! ### Lines -/

/-- The blanks at the start of a text are at most one lexeme. -/
theorem scan_dropWhile_isBlank (cs : List Char) :
    scan cs = scan (cs.dropWhile isBlank) ∨
      ∃ run, scan cs = .blanks run :: scan (cs.dropWhile isBlank) := by
  cases cs with
  | nil => exact .inl rfl
  | cons c cs =>
      by_cases hblank : isBlank c = true
      · rw [List.dropWhile_cons_of_pos hblank, Lexeme.scan_cons, Lexeme.next_blank hblank]
        exact .inr ⟨_, rfl⟩
      · rw [List.dropWhile_cons_of_neg hblank]
        exact .inl rfl

/-- The blanks at the start of a text are no tokens of an expression. -/
theorem flatten_dropWhile_isBlank (n : Nat) (cs : List Char) :
    flatten n (scan (cs.dropWhile isBlank)) = flatten n (scan cs) := by
  rcases scan_dropWhile_isBlank cs with hscan | ⟨run, hscan⟩
  · rw [hscan]
  · rw [hscan]
    rfl

/-- The blanks at the start of a text are no tokens of a program either, once the line
has been measured. -/
theorem layout_dropWhile_isBlank (n : Nat) (blocks : List Nat) (cs : List Char) :
    layout n blocks (scan (cs.dropWhile isBlank)) = layout n blocks (scan cs) := by
  rcases scan_dropWhile_isBlank cs with hscan | ⟨run, hscan⟩
  · rw [hscan]
  · rw [hscan]
    rfl

/-- The margin of a line is no token. -/
theorem ofExpression_dropWhile_isMargin (cs : List Char) (n : Nat) :
    ofExpression (cs.dropWhile isMargin) n = ofExpression cs n := by
  unfold ofExpression
  rw [← flatten_dropWhile_isBlank, Lexeme.dropWhile_isBlank_dropWhile_isMargin,
    flatten_dropWhile_isBlank]

theorem layout_dropWhile_isMargin (n : Nat) (blocks : List Nat) (cs : List Char) :
    layout n blocks (scan (cs.dropWhile isMargin)) = layout n blocks (scan cs) := by
  rw [← layout_dropWhile_isBlank, Lexeme.dropWhile_isBlank_dropWhile_isMargin,
    layout_dropWhile_isBlank]

/-- Within a line, a program is read as an expression is. -/
theorem layout_eq_flatten_append {ls : List Lexeme} (h : .newline ∉ ls) (n : Nat)
    (blocks : List Nat) (ms : List Lexeme) :
    layout n blocks (ls ++ ms) = flatten n ls ++ layout n blocks ms := by
  induction ls with
  | nil => rfl
  | cons l ls ih =>
      obtain ⟨hl, hls⟩ := not_or.1 (mt List.mem_cons.2 h)
      rw [List.cons_append, layout_cons (Ne.symm hl), flatten_cons (Ne.symm hl), ih hls,
        List.append_assoc]

theorem layout_line {l : List Char} (hl : '\n' ∉ l) (n : Nat) (blocks : List Nat)
    (rest : List Char) :
    layout n blocks (scan (l ++ '\n' :: rest)) =
      ofExpression l n ++ newline n :: lineOn (n + 1) blocks (scan rest) := by
  rw [Lexeme.scan_append_newline, layout_eq_flatten_append (Lexeme.newline_not_mem_scan hl),
    layout_newline]
  rfl

theorem layout_lastLine {l : List Char} (hl : '\n' ∉ l) (n : Nat) (blocks : List Nat) :
    layout n blocks (scan l) = ofExpression l n ++ blocks.map (dedent n) := by
  have happend := layout_eq_flatten_append (Lexeme.newline_not_mem_scan hl) n blocks []
  rwa [List.append_nil] at happend

/-- The tokens from a line on: what its column does to the open blocks, its own
tokens, its end, and the tokens from the next line on. -/
theorem lineOn_line {l : List Char} (hl : '\n' ∉ l) (n : Nat) (blocks : List Nat)
    (rest : List Char) :
    lineOn n blocks (scan (l ++ '\n' :: rest)) =
      (shiftAt n (scan l) blocks).1 ++ (ofExpression l n ++ newline n ::
        lineOn (n + 1) (shiftAt n (scan l) blocks).2 (scan rest)) := by
  rw [lineOn, layout_line hl, Lexeme.scan_append_newline, shiftAt_append_newline]

theorem lineOn_lastLine {l : List Char} (hl : '\n' ∉ l) (n : Nat) (blocks : List Nat) :
    lineOn n blocks (scan l) =
      (shiftAt n (scan l) blocks).1 ++
        (ofExpression l n ++ (shiftAt n (scan l) blocks).2.map (dedent n)) := by
  rw [lineOn, layout_lastLine hl]

/-! ### A run over the characters

The tokens again, read from the characters in one run. A program is told from an
expression where a line starts: there it measures the margin and drops it, and only
then cuts the next lexeme. An expression finds the margin among its blanks.
-/

/-- What the line at the start of a text does to the open blocks. -/
def measure (line : Nat) (cs : List Char) (blocks : List Nat) : List Token × List Nat :=
  (measure? cs).elim ([], blocks) fun column => shift line column blocks

/-- The tokens of a text that starts on `line`, lexeme by lexeme. If the run tracks the
layout, line ends are tokens, and what follows one is measured and read without its
margin. -/
def run (tracks : Bool) (line : Nat) (blocks : List Nat) (cs : List Char) : List Token :=
  match cs with
  | [] => if tracks then blocks.map (dedent line) else []
  | c :: cs =>
    let cut := Lexeme.next c cs
    if cut.1 = .newline then
      if tracks then
        let shifts := measure (line + 1) cut.2 blocks
        newline line :: (shifts.1 ++ run tracks (line + 1) shifts.2 (cut.2.dropWhile isMargin))
      else run tracks (line + 1) blocks cut.2
    else (cut.1.token? line).toList ++ run tracks line blocks cut.2
termination_by cs.length
decreasing_by
  · have hmargin := (List.dropWhile_suffix (l := cut.2) isMargin).length_le
    exact Nat.lt_of_le_of_lt hmargin (Lexeme.length_next_lt c cs)
  · exact Lexeme.length_next_lt c cs
  · exact Lexeme.length_next_lt c cs

theorem measure_eq_shiftAt (line : Nat) (cs : List Char) (blocks : List Nat) :
    measure line cs blocks = shiftAt line (scan cs) blocks := by
  rw [measure, shiftAt, column?_scan]
  cases measure? cs <;> rfl

/-- A run that tracks the layout gives the tokens of a program. -/
theorem run_true (line : Nat) (blocks : List Nat) (cs : List Char) :
    run true line blocks cs = layout line blocks (scan cs) := by
  fun_induction run true line blocks cs with
  | case1 line blocks => rw [Lexeme.scan_nil, layout]
  | case2 line blocks htracks => exact absurd rfl htracks
  | case3 line blocks c cs cut hnewline _ shifts ih =>
      have hshifts : shifts = shiftAt (line + 1) (scan cut.2) blocks := measure_eq_shiftAt _ _ _
      rw [ih, layout_dropWhile_isMargin, hshifts, Lexeme.scan_cons, hnewline, layout_newline,
        lineOn]
  | case4 line blocks c cs cut _ htracks => exact absurd rfl htracks
  | case5 line blocks c cs cut hnewline ih =>
      rw [ih, Lexeme.scan_cons, layout_cons hnewline]

/-- A run that does not track the layout gives the tokens of an expression. -/
theorem run_false (line : Nat) (blocks : List Nat) (cs : List Char) :
    run false line blocks cs = ofExpression cs line := by
  unfold ofExpression
  fun_induction run false line blocks cs with
  | case1 line blocks htracks => cases htracks
  | case2 line blocks => rw [Lexeme.scan_nil, flatten]
  | case3 line blocks c cs cut _ htracks => cases htracks
  | case4 line blocks c cs cut hnewline _ ih =>
      rw [ih, Lexeme.scan_cons, hnewline, flatten]
  | case5 line blocks c cs cut hnewline ih =>
      rw [ih, Lexeme.scan_cons, flatten_cons hnewline]

/-! ### Programs and expressions -/

theorem filter_isLayout_token? (l : Lexeme) (n : Nat) :
    (l.token? n).toList.filter (fun t => !t.kind.isLayout) = (l.token? n).toList := by
  refine List.filter_eq_self.2 fun t ht => ?_
  have htoken := Option.mem_toList.1 ht
  obtain ⟨hindent, hdedent⟩ := token?_kind htoken
  have hnewline := token?_kind_ne_newline htoken
  cases hkind : t.kind with
  | newline => exact absurd hkind hnewline
  | indent => exact absurd hkind hindent
  | dedent => exact absurd hkind hdedent
  | _ => rfl

theorem filter_isLayout_measure (line : Nat) (cs : List Char) (blocks : List Nat) :
    (measure line cs blocks).1.filter (fun t => !t.kind.isLayout) = [] := by
  rw [measure_eq_shiftAt]
  refine List.filter_eq_nil_iff.2 fun t ht => ?_
  rcases kind_of_mem_shiftAt ht with hkind | hkind <;> simp [hkind]

/-- The layout adds tokens of its own to a run and leaves the others as they are,
whatever blocks are open: the margins that it drops are no tokens of an expression. -/
theorem filter_isLayout_run (line : Nat) (blocks : List Nat) (cs : List Char) :
    (run true line blocks cs).filter (fun t => !t.kind.isLayout) = run false line [] cs := by
  rw [run_false]
  fun_induction run true line blocks cs with
  | case1 line blocks =>
      rw [ofExpression, Lexeme.scan_nil, flatten]
      refine List.filter_eq_nil_iff.2 fun t ht => ?_
      obtain ⟨column, -, rfl⟩ := List.mem_map.1 ht
      simp [dedent]
  | case2 line blocks htracks => exact absurd rfl htracks
  | case3 line blocks c cs cut hnewline _ shifts ih =>
      have hshifts : shifts.1.filter (fun t => !t.kind.isLayout) = [] :=
        filter_isLayout_measure (line + 1) cut.2 blocks
      rw [List.filter_cons_of_neg (by simp [newline]), List.filter_append, hshifts,
        List.nil_append, ih, ofExpression_dropWhile_isMargin, ofExpression, ofExpression,
        Lexeme.scan_cons, hnewline, flatten]
  | case4 line blocks c cs cut _ htracks => exact absurd rfl htracks
  | case5 line blocks c cs cut hnewline ih =>
      rw [List.filter_append, filter_isLayout_token?, ih, ofExpression, ofExpression,
        Lexeme.scan_cons, flatten_cons hnewline]

/-- The layout of the lexemes of a text leaves the tokens of the expression as they are. -/
theorem filter_isLayout_layout (line : Nat) (blocks : List Nat) (cs : List Char) :
    (layout line blocks (scan cs)).filter (fun t => !t.kind.isLayout) =
      ofExpression cs line := by
  rw [← run_true, filter_isLayout_run, run_false]

/-- **A text has the same tokens as an expression and as a program**, with the same
kinds, texts and lines in the same order, apart from the line ends and the tokens
that open and close blocks, which only the program has. -/
theorem ofExpression_eq_filter_ofProgram (source : List Char) :
    ofExpression source 1 = (ofProgram source).filter fun t => !t.kind.isLayout := by
  calc ofExpression source 1
    _ = run false 1 [] source := (run_false 1 [] source).symm
    _ = (run true 1 [] source).filter fun t => !t.kind.isLayout :=
      (filter_isLayout_run 1 [] source).symm
    _ = (ofProgram source).filter fun t => !t.kind.isLayout := by rw [run_true, ofProgram]

end Token

end Offside
