import Offside.Ast.Equality
import Offside.Proofs.Derivation.Likeness
import Offside.Proofs.Layout

/-!
# Offside.Proofs.BlankLines

Lines that hold nothing but blanks and a comment. Such a line adds one line end
to the tokens and moves the later ones down by a line
(`ofProgram_insert_blankLine`). A further line end is passed over wherever
statements may stand, but **not between the colon of a block and its first line**.
Main statement: `parse_insert_blankLine`, by which this is the only place where a
blank line matters.

* That it does not matter elsewhere is the likeness of the two lists of tokens.
* That it matters there is `FormsProgram.opensAfterColon`: in a program, every
  `indent` comes directly after a colon and one line end.
-/

namespace Offside

/-! ### Where blocks open -/

namespace Grammar

/-- Every `indent` among the tokens comes directly after a colon and a line end. -/
inductive OpensAfterColon : List Token → Prop where
  | nil : OpensAfterColon []
  | cons {t : Token} {ts : List Token} :
      t.kind ≠ .indent → OpensAfterColon ts → OpensAfterColon (t :: ts)
  | block {colon newline indent : Token} {ts : List Token} :
      colon.is .delimiter ":" = true → newline.kind = .newline → indent.kind = .indent →
      OpensAfterColon ts → OpensAfterColon (colon :: newline :: indent :: ts)

namespace OpensAfterColon

variable {ts us : List Token}

theorem append_of_isLayout (hts : ∀ t ∈ ts, t.kind.isLayout = false) (h : OpensAfterColon us) :
    OpensAfterColon (ts ++ us) := by
  induction ts with
  | nil => exact h
  | cons t ts ih =>
      obtain ⟨ht, hts⟩ := List.forall_mem_cons.1 hts
      refine .cons (fun hkind => ?_) (ih hts)
      rw [hkind] at ht
      cases ht

theorem cons_of_is {t : Token} {kind : TokenKind} {text : String} (ht : t.is kind text = true)
    (hkind : kind ≠ .indent) (h : OpensAfterColon ts) : OpensAfterColon (t :: ts) :=
  .cons (by rwa [(Token.is_iff.1 ht).1]) h

theorem ne_indent_of_cons_cons {t u : Token} (h : OpensAfterColon (t :: u :: ts))
    (ht : t.kind = .newline) : u.kind ≠ .indent := by
  cases h with
  | cons _ h =>
      cases h with
      | cons hu _ => exact hu
      | block hcolon => simp [(Token.is_iff.1 hcolon).1]
  | block hcolon => cases (Token.is_iff.1 hcolon).1.symm.trans ht

/-- There is no second line end between the colon and the block. -/
theorem not_append_newlines {first second indent : Token} (hfirst : first.kind = .newline)
    (hsecond : second.kind = .newline) (hindent : indent.kind = .indent) :
    ¬ OpensAfterColon (ts ++ first :: second :: indent :: us) := by
  generalize hall : ts ++ first :: second :: indent :: us = all
  intro h
  -- The three tokens stand after `ts`, which is either used up by a step or not.
  induction h generalizing ts with
  | nil => simp at hall
  | cons ht h ih =>
      cases ts with
      | cons t ts => exact ih (List.cons.inj hall).2
      | nil =>
          obtain ⟨rfl, rfl⟩ := List.cons.inj hall
          exact h.ne_indent_of_cons_cons hsecond hindent
  | block hcolon _ hindent' _ ih =>
      -- The colon, the line end and the indent of a block overlap with the three tokens in
      -- one of three ways, none of which fits.
      match ts with
      | [] =>
          obtain ⟨rfl, -⟩ := List.cons.inj hall
          cases (Token.is_iff.1 hcolon).1.symm.trans hfirst
      | [_] =>
          obtain ⟨-, -, rfl, -⟩ : _ ∧ _ ∧ second = _ ∧ _ := by simpa using hall
          cases hsecond.symm.trans hindent'
      | [_, _] =>
          obtain ⟨-, -, rfl, -⟩ : _ ∧ _ ∧ first = _ ∧ _ := by simpa using hall
          cases hfirst.symm.trans hindent'
      | _ :: _ :: _ :: ts =>
          obtain ⟨-, -, -, hrest⟩ : _ ∧ _ ∧ _ ∧ ts ++ _ = _ := by simpa using hall
          exact ih hrest

end OpensAfterColon

theorem Takes.opensAfterColon {r : Reader} {piece : Piece} {ts rest : List Token}
    (h : Takes r piece ts rest) (hrest : OpensAfterColon rest) : OpensAfterColon ts := by
  induction h with
  | line hsimple _ => exact .append_of_isLayout hsimple.isLayout_eq_false hrest
  | semicolon hsimple _ ht =>
      exact .append_of_isLayout hsimple.isLayout_eq_false (.cons_of_is ht (by simp) hrest)
  | functionDef ht hname hopening hnames _ ih =>
      exact .cons_of_is ht (by simp) (.cons (by simp [hname]) (.cons_of_is hopening (by simp)
        (.append_of_isLayout hnames.isLayout_eq_false (ih hrest))))
  | classDef ht hname _ ih => exact .cons_of_is ht (by simp) (.cons (by simp [hname]) (ih hrest))
  | conditional ht hcondition _ _ ihbody ihmore | elseIf ht hcondition _ _ ihbody ihmore
  | whileLoop ht hcondition _ _ ihbody ihmore =>
      exact .cons_of_is ht (by simp)
        (.append_of_isLayout hcondition.isLayout_eq_false (ihbody (ihmore hrest)))
  | forLoop ht htarget hin hiter _ _ ihbody ihorelse =>
      exact .cons_of_is ht (by simp) (.append_of_isLayout htarget.isLayout_eq_false
        (.cons_of_is hin (by simp)
          (.append_of_isLayout hiter.isLayout_eq_false (ihbody (ihorelse hrest)))))
  | otherwise ht _ ih | loopElse ht _ ih => exact .cons_of_is ht (by simp) (ih hrest)
  | noAlternate | noLoopElse | bodyEnd => exact hrest
  | block hcolon hnewline hindent _ ih => exact .block hcolon hnewline hindent (ih hrest)
  | dedent ht => exact .cons (by simp [ht]) hrest
  | bodyNewline ht _ ih => exact .cons (by simp [ht]) (ih hrest)
  | bodyStatement _ _ ihs ih => exact ihs (ih hrest)

theorem FormsProgram.opensAfterColon {r : Reader} {ss : List Stmt} {ts : List Token}
    (h : FormsProgram r ss ts) : OpensAfterColon ts := by
  induction h with
  | done => exact .nil
  | dedent ht _ ih | newline ht _ ih => exact .cons (by simp [ht]) ih
  | statement hs _ ih => exact hs.opensAfterColon ih

end Grammar

/-! ### The layout at other lines -/

namespace Token

section

variable {f g : Nat → Nat} {l k : Nat}

theorem shiftAt_snd (l k : Nat) (ls : List Lexeme) (blocks : List Nat) :
    (shiftAt l ls blocks).2 = (shiftAt k ls blocks).2 := by
  unfold shiftAt
  split
  · unfold shift
    split <;> rfl
  · rfl

theorem like_map_dedent (h : f l = g k) (columns : List Nat) {ts us : List Token}
    (hlike : Grammar.Like f g ts us) :
    Grammar.Like f g (columns.map (dedent l) ++ ts) (columns.map (dedent k) ++ us) := by
  induction columns with
  | nil => exact hlike
  | cons column columns ih => exact .cons (by simp [dedent]) ⟨rfl, by simp [dedent]⟩ h ih

theorem like_shiftAt (h : f l = g k) (ls : List Lexeme) (blocks : List Nat) {ts us : List Token}
    (hlike : Grammar.Like f g ts us) :
    Grammar.Like f g ((shiftAt l ls blocks).1 ++ ts) ((shiftAt k ls blocks).1 ++ us) := by
  unfold shiftAt
  split
  · unfold shift
    split
    · exact .cons (by simp [indent]) ⟨rfl, by simp [indent]⟩ h hlike
    · exact like_map_dedent h _ hlike
  · exact hlike

variable (hstep : ∀ l k, f l = g k → f (l + 1) = g (k + 1))
include hstep

theorem like_layout (ls : List Lexeme) (blocks : List Nat) (h : f l = g k) :
    Grammar.Like f g (layout l blocks ls) (layout k blocks ls) := by
  induction ls generalizing l k blocks with
  | nil =>
      have hdedents := like_map_dedent h blocks .nil
      rwa [List.append_nil, List.append_nil] at hdedents
  | cons lexeme ls ih =>
      by_cases hnewline : lexeme = .newline
      · subst hnewline
        rw [layout_newline, layout_newline, lineOn, lineOn, shiftAt_snd (l + 1) (k + 1)]
        have hline := like_shiftAt (hstep l k h) ls blocks
          (ih (shiftAt (k + 1) ls blocks).2 (hstep l k h))
        exact .newline rfl rfl hline
      · rw [layout_cons hnewline, layout_cons hnewline, lexeme.token?_relabel l k]
        cases htoken : lexeme.token? l with
        | none => exact ih blocks h
        | some t =>
            obtain ⟨hline, hkind⟩ := Lexeme.token?_line htoken
            exact .cons hkind ⟨rfl, fun _ => rfl⟩ (by rw [hline]; exact h) (ih blocks h)

theorem like_lineOn (ls : List Lexeme) (blocks : List Nat) (h : f l = g k) :
    Grammar.Like f g (lineOn l blocks ls) (lineOn k blocks ls) := by
  rw [lineOn, lineOn, shiftAt_snd l k]
  exact like_shiftAt h ls blocks (like_layout hstep ls _ h)

end

/-- A token one line further down. -/
def lowered (t : Token) : Token := { t with line := t.line + 1 }

theorem token?_succ (l : Lexeme) (n : Nat) : l.token? (n + 1) = (l.token? n).map lowered := by
  cases l with
  | quoted marker _ _ => cases marker <;> rfl
  | _ => rfl

theorem map_lowered_dedent (n : Nat) (columns : List Nat) :
    columns.map (dedent (n + 1)) = (columns.map (dedent n)).map lowered := by
  rw [List.map_map]
  rfl

theorem shiftAt_succ (n : Nat) (ls : List Lexeme) (blocks : List Nat) :
    shiftAt (n + 1) ls blocks =
      ((shiftAt n ls blocks).1.map lowered, (shiftAt n ls blocks).2) := by
  unfold shiftAt
  split
  · unfold shift
    split
    · rfl
    · rw [map_lowered_dedent]
  · rfl

theorem layout_succ (n : Nat) (blocks : List Nat) (ls : List Lexeme) :
    layout (n + 1) blocks ls = (layout n blocks ls).map lowered := by
  induction ls generalizing n blocks with
  | nil => exact map_lowered_dedent n blocks
  | cons l ls ih =>
      by_cases hl : l = .newline
      · subst hl
        rw [layout_newline, layout_newline, lineOn, lineOn, shiftAt_succ (n + 1), ih,
          List.map_cons, List.map_append]
        rfl
      · rw [layout_cons hl, layout_cons hl, ih, token?_succ, List.map_append]
        cases l.token? n <;> rfl

/-- The layout counts the lines, and does nothing else with them. -/
theorem lineOn_succ (n : Nat) (blocks : List Nat) (ls : List Lexeme) :
    lineOn (n + 1) blocks ls = (lineOn n blocks ls).map lowered := by
  rw [lineOn, lineOn, shiftAt_succ, layout_succ, List.map_append]

end Token

theorem Grammar.Like.append_left {f : Nat → Nat} {us vs : List Token} (h : Like f f us vs)
    (ts : List Token) : Like f f (ts ++ us) (ts ++ vs) := by
  induction ts with
  | nil => exact h
  | cons t ts ih =>
      by_cases ht : t.kind = .newline
      · exact .newline ht ht ih
      · exact .cons ht ⟨rfl, fun _ => rfl⟩ rfl ih

/-! ### Blank lines -/

/-- The tokens after the first `n` line ends. -/
def Token.afterLineEnds : Nat → List Token → List Token
  | 0, ts => ts
  | _ + 1, [] => []
  | n + 1, t :: ts => if t.kind = .newline then afterLineEnds n ts else afterLineEnds (n + 1) ts

/-- A block opens on the line after the first `n` line ends. -/
def Token.opensBlockAfter (n : Nat) (ts : List Token) : Bool :=
  (afterLineEnds n ts).head?.any (·.kind = .indent)

theorem Token.afterLineEnds_append (ts : List Token) {t : Token} (ht : t.kind = .newline)
    (us : List Token) :
    afterLineEnds (ts.countP (·.kind = .newline) + 1) (ts ++ t :: us) = us := by
  induction ts with
  | nil => simp [afterLineEnds, ht]
  | cons u ts ih =>
      by_cases hu : u.kind = .newline
      · simpa [afterLineEnds, hu] using ih
      · simpa [afterLineEnds, hu] using ih

/-- The tokens of a text with a blank line in it and without. The blank line comes
after the last line end of `a`, which is the one on line `a.count '\n'`. -/
theorem Token.ofProgram_blankLine_at {a l : List Char} (ha : a.getLast? = some '\n')
    (hl : Lexeme.IsBlankLine l) (b : List Char) :
    ∃ ts inner, ts.countP (·.kind = .newline) + 1 = a.count '\n' ∧
      ofProgram (a ++ b) =
        ts ++ newline (a.count '\n') :: lineOn (a.count '\n' + 1) inner (Lexeme.scan b) ∧
      ofProgram (a ++ (l ++ '\n' :: b)) =
        ts ++ newline (a.count '\n') :: newline (a.count '\n' + 1) ::
          lineOn (a.count '\n' + 2) inner (Lexeme.scan b) := by
  obtain ⟨front, rfl⟩ := List.getLast?_eq_some_iff.1 ha
  have hline : (front ++ ['\n']).count '\n' = 1 + (Lexeme.scan front).count .newline := by
    rw [Lexeme.count_newline_scan, List.count_append, List.count_singleton_self, Nat.add_comm]
  refine ⟨(openLayout 1 [] (Lexeme.scan front)).1, (openLayout 1 [] (Lexeme.scan front)).2,
    ?_, ?_, ?_⟩
  · rw [countP_newline_openLayout, hline, Nat.add_comm]
  · rw [hline, ofProgram, List.append_assoc, List.singleton_append, Lexeme.scan_append_newline,
      layout_append_newline]
  · rw [hline, ofProgram, List.append_assoc, List.singleton_append, Lexeme.scan_append_newline,
      Lexeme.scan_append_newline, layout_append_newline, lineOn_blankLine hl]

theorem Token.ofProgram_blankLine {a l : List Char} (ha : a.getLast? = some '\n')
    (hl : Lexeme.IsBlankLine l) (b : List Char) :
    ∃ ts line inner, ts.countP (·.kind = .newline) + 1 = a.count '\n' ∧
      ofProgram (a ++ b) = ts ++ newline line :: lineOn (line + 1) inner (Lexeme.scan b) ∧
      ofProgram (a ++ (l ++ '\n' :: b)) =
        ts ++ newline line :: newline (line + 1) :: lineOn (line + 2) inner (Lexeme.scan b) := by
  obtain ⟨ts, inner, htokens⟩ := ofProgram_blankLine_at ha hl b
  exact ⟨ts, a.count '\n', inner, htokens⟩

/-- **A blank line adds one line end and nothing else.** In the tokens of the text
`a ++ b`, the last line end of `a` is the one after as many line ends as there are in
`a` before it. With the blank line `l` between `a` and `b`, a line end follows it, and
then come the tokens that came before, each of them a line further down: blocks are
opened and closed as without the blank line. -/
theorem Token.ofProgram_insert_blankLine {a l : List Char} (ha : a.getLast? = some '\n')
    (hl : Lexeme.IsBlankLine l) (b : List Char) :
    ∃ before after, before.countP (·.kind = .newline) + 1 = a.count '\n' ∧
      ofProgram (a ++ b) = before ++ newline (a.count '\n') :: after ∧
      ofProgram (a ++ (l ++ '\n' :: b)) =
        before ++ newline (a.count '\n') :: newline (a.count '\n' + 1) :: after.map lowered := by
  obtain ⟨before, inner, hcount, hshort, hlong⟩ := ofProgram_blankLine_at ha hl b
  rw [lineOn_succ] at hlong
  exact ⟨before, _, hcount, hshort, hlong⟩

/-- A comment line before a line that closes a block. -/
theorem Token.ofProgram_insert_comment :
    ∃ before after, before.countP (·.kind = .newline) + 1 = 3 ∧
      ofProgram ("while x:\n  if y:\n\t\t\tz\n".toList ++ "  u".toList) =
        before ++ newline 3 :: after ∧
      ofProgram ("while x:\n  if y:\n\t\t\tz\n".toList ++
          (" \t# done".toList ++ '\n' :: "  u".toList)) =
        before ++ newline 3 :: newline 4 :: after.map lowered := by
  have hblank : Lexeme.IsBlankLine " \t# done".toList :=
    ⟨[' ', '\t'], "# done".toList, by decide, by simp, .inr ⟨" done".toList, by decide⟩⟩
  have hcount : "while x:\n  if y:\n\t\t\tz\n".toList.count '\n' = 3 := by decide
  have htokens := ofProgram_insert_blankLine (a := "while x:\n  if y:\n\t\t\tz\n".toList)
    (by decide) hblank "  u".toList
  rwa [hcount] at htokens

/-- A blank line changes nothing, unless a block opens after it. -/
theorem Program.ofTokens_blankLine {ts rest rest' : List Token} {n k : Nat}
    (hrest : Grammar.Like (fun _ => 0) (fun _ => 0) rest rest')
    (hindent : ∀ i ∈ rest.head?, i.kind ≠ .indent) {p : Program} :
    (∃ q, ofTokens (ts ++ Token.newline n :: Token.newline k :: rest') = .ok q ∧
        q.eraseLines = p) ↔
      ∃ q, ofTokens (ts ++ Token.newline n :: rest) = .ok q ∧ q.eraseLines = p := by
  have hlike : Grammar.Like (fun _ => 0) (fun _ => 0) (ts ++ Token.newline n :: rest)
      (ts ++ Token.newline n :: Token.newline k :: rest') :=
    Grammar.Like.append_left (@Grammar.Like.newlines _ _ _ _ [] [Token.newline k] _ _ rfl rfl
      (by simp) (List.forall_mem_singleton.2 rfl) (.inr hindent) hrest) ts
  constructor
  · rintro ⟨q, hq, rfl⟩
    exact ofTokens_like (fun _ _ _ => rfl) hlike.symm hq
  · rintro ⟨q, hq, rfl⟩
    exact ofTokens_like (fun _ _ _ => rfl) hlike hq

theorem Token.opensBlockAfter_eq_false_iff {n : Nat} {ts : List Token} :
    opensBlockAfter n ts = false ↔ ∀ i ∈ (afterLineEnds n ts).head?, i.kind ≠ .indent := by
  unfold opensBlockAfter
  cases (afterLineEnds n ts).head? <;> simp

/-- A blank line before a block that opens is refused. -/
theorem Program.not_ofTokens_blankLine {ts rest : List Token} {n k : Nat} {i : Token}
    (hi : i ∈ rest.head?) (hindent : i.kind = .indent) {q : Program} :
    ofTokens (ts ++ Token.newline n :: Token.newline k :: rest) ≠ .ok q := by
  intro hq
  obtain ⟨more, rfl⟩ := List.head?_eq_some_iff.1 hi
  exact Grammar.OpensAfterColon.not_append_newlines rfl rfl hindent
    (ofTokens_eq_ok_iff.1 hq).opensAfterColon

/-- A blank line `l` after the lines `a` leaves the program as it is, up to its
lines, if no block opens on the line after it, and else there is no program. -/
theorem parse_insert_blankLine {a l : String} (ha : a.toList.getLast? = some '\n')
    (hl : Lexeme.IsBlankLine l.toList) (b : String) (p : Program) :
    (∃ q, Program.parse (a ++ l ++ "\n" ++ b) = .ok q ∧ q.eraseLines = p) ↔
      (∃ q, Program.parse (a ++ b) = .ok q ∧ q.eraseLines = p) ∧
        Token.opensBlockAfter (a.toList.count '\n') (Token.ofProgram (a ++ b).toList) = false := by
  obtain ⟨ts, line, inner, hcount, hshort, hlong⟩ := Token.ofProgram_blankLine ha hl b.toList
  have hlike : Grammar.Like (fun _ => 0) (fun _ => 0)
      (Token.lineOn (line + 1) inner (Lexeme.scan b.toList))
      (Token.lineOn (line + 2) inner (Lexeme.scan b.toList)) :=
    Token.like_lineOn (fun _ _ _ => rfl) _ _ rfl
  have hafter : Token.afterLineEnds (a.toList.count '\n') (Token.ofProgram (a ++ b).toList) =
      Token.lineOn (line + 1) inner (Lexeme.scan b.toList) := by
    rw [String.toList_append, hshort, ← hcount, Token.afterLineEnds_append ts rfl]
  have htext : (a ++ l ++ "\n" ++ b).toList = a.toList ++ (l.toList ++ '\n' :: b.toList) := by
    simp [String.toList_append]
  rw [Token.opensBlockAfter_eq_false_iff, hafter, Program.parse, Program.parse, htext, hlong,
    String.toList_append, hshort]
  by_cases hindent : ∀ i ∈ (Token.lineOn (line + 1) inner (Lexeme.scan b.toList)).head?,
      i.kind ≠ .indent
  · rw [and_iff_left hindent]
    exact Program.ofTokens_blankLine hlike hindent
  · -- Both sides fail: a block opens after the two line ends.
    refine ⟨?_, fun h => absurd h.2 hindent⟩
    rintro ⟨q, hq, -⟩
    simp only [ne_eq, Classical.not_forall, Decidable.not_not] at hindent
    obtain ⟨i, hi, hkind⟩ := hindent
    obtain ⟨j, hj, hsame⟩ := hlike.symm.head i hi
    exact absurd hq (Program.not_ofTokens_blankLine hj (hsame.kind.symm.trans hkind))

theorem parse_comment_before_else :
    ∃ q, Program.parse ("if x:\n    y = a + b\n" ++ "\t # done" ++ "\n" ++ "else:\n    pass\n") =
        .ok q ∧
      q.eraseLines = ⟨[.ifElse (.ident "x")
        [.assign (.ident "y") (.binary (.ident "a") .add (.ident "b") 0)] (.otherwise [.pass])]⟩ :=
  (parse_insert_blankLine (by decide)
    ⟨['\t', ' '], "# done".toList, by decide, by simp, .inr ⟨" done".toList, by decide⟩⟩ _ _).2
    ⟨⟨⟨[.ifElse (.ident "x")
        [.assign (.ident "y") (.binary (.ident "a") .add (.ident "b") 2)] (.otherwise [.pass])]⟩,
      Program.parse_eq_ok (by decide +kernel), rfl⟩, by decide +kernel⟩

/-- Between the colon of a block and its first line a blank line is not
insignificant. -/
theorem blankLine_before_block_refused :
    (∃ p, Program.parse ("if x:\n" ++ "    y\n") = .ok p) ∧
      ¬ ∃ p, Program.parse ("if x:\n" ++ "" ++ "\n" ++ "    y\n") = .ok p := by
  refine ⟨⟨⟨[.ifElse (.ident "x") [.expr (.ident "y")] .none]⟩,
    Program.parse_eq_ok (by decide +kernel)⟩, ?_⟩
  rintro ⟨p, hp⟩
  have hnone : (Program.parse ("if x:\n" ++ "" ++ "\n" ++ "    y\n")).toOption.isNone = true := by
    decide +kernel
  rw [hp] at hnone
  cases hnone

end Offside
