import Offside.Proofs.Derivation.Likeness
import Offside.Proofs.Neighbours

/-!
# Offside.Proofs.Coverage

The tokens of a program **cover its source**. Main statement:
`exists_pieces_ofProgram`, by which the source falls into pieces without a gap or
an overlap, each of which is passed over or stands for one token, and all tokens
but those that open and close blocks come from a piece.

Lines are counted by the line ends among the pieces, so they are right only if no
piece hides a line end (`Lexeme.newline_not_mem_spelling`).
-/

namespace Offside

namespace Lexeme

/-! ### What lexemes are made of -/

/-- A line end is a lexeme of its own. -/
theorem newline_not_mem_spelling {cs : List Char} {l : Lexeme} (h : l ∈ scan cs)
    (hl : l ≠ .newline) : '\n' ∉ l.spelling := by
  by_cases hmem : '\n' ∈ cs
  · obtain ⟨before, after, hcs⟩ := List.append_of_mem hmem
    rw [hcs, scan_append_newline, List.mem_append, List.mem_cons] at h
    rcases h with hbefore | heq | hafter
    · exact newline_not_mem_spelling hbefore hl
    · exact absurd heq hl
    · exact newline_not_mem_spelling hafter hl
  · intro hspelling
    refine hmem ?_
    rw [← flatMap_spelling_scan cs]
    exact List.mem_flatMap.2 ⟨l, h, hspelling⟩
termination_by cs.length
decreasing_by
  all_goals
    rw [hcs, List.length_append, List.length_cons]
    omega

theorem spelling_ne_nil_of_mem_scan {cs : List Char} {l : Lexeme} (h : l ∈ scan cs) :
    l.spelling ≠ [] := by
  obtain ⟨d, ds, rfl⟩ := exists_next_of_mem_scan h
  exact next_spelling_ne_nil d ds

/-- The characters that may stand around a string. -/
def quotes : List Char := ['"', '\'']

/-- The characters that may mark a string as an f-string. -/
def markers : List Char := ['f', 'F']

theorem quotedAfter_quote {marker cs rest : List Char} {l : Lexeme}
    (h : quotedAfter marker cs = some (l, rest)) :
    ∃ quote ∈ quotes, ∃ body, l = .quoted marker quote body := by
  cases cs with
  | nil => cases h
  | cons q cs =>
      rw [quotedAfter] at h
      split at h
      · rename_i hquote
        obtain ⟨⟨body, after⟩, -, heq⟩ := Option.map_eq_some_iff.1 h
        exact ⟨q, by simpa [quotes] using hquote, body, (Prod.mk.inj heq).1.symm⟩
      · cases h

theorem quoted?_quote {cs rest : List Char} {l : Lexeme} (h : quoted? cs = some (l, rest)) :
    ∃ quote ∈ quotes, ∃ body,
      l = .quoted [] quote body ∨ ∃ marker ∈ markers, l = .quoted [marker] quote body := by
  cases cs with
  | nil => cases h
  | cons c cs =>
      rw [quoted?] at h
      split at h
      · rename_i hmarker
        obtain ⟨quote, hquote, body, hl⟩ := quotedAfter_quote h
        exact ⟨quote, hquote, body, .inr ⟨c, by simpa [markers] using hmarker, hl⟩⟩
      · obtain ⟨quote, hquote, body, hl⟩ := quotedAfter_quote h
        exact ⟨quote, hquote, body, .inl hl⟩

theorem quoted?_of_next {c quote : Char} {cs marker body : List Char}
    (h : (next c cs).1 = .quoted marker quote body) :
    ∃ rest, quoted? (c :: cs) = some (.quoted marker quote body, rest) := by
  unfold next at h
  split at h
  · cases h
  · split at h
    · rename_i found hfound
      exact ⟨found.2, hfound.trans (by rw [← h])⟩
    · split at h
      · cases h
      · split at h
        · cases h
        · split at h
          · rename_i found hfound
            obtain ⟨symbol, -, rfl⟩ := Option.map_eq_some_iff.1 hfound
            cases h
          · split at h
            · cases h
            · split at h
              · cases h
              · split at h
                · cases h
                · split at h <;> cases h

/-- A string has one quote on both sides, and at most one marker before it. -/
theorem quote_of_mem_scan {cs marker body : List Char} {quote : Char}
    (h : .quoted marker quote body ∈ scan cs) :
    quote ∈ quotes ∧ (marker = [] ∨ ∃ c ∈ markers, marker = [c]) := by
  obtain ⟨d, ds, hnext⟩ := exists_next_of_mem_scan h
  obtain ⟨rest, hquoted⟩ := quoted?_of_next hnext
  obtain ⟨quote', hquote, body', hl | ⟨c, hc, hl⟩⟩ := quoted?_quote hquoted
  · obtain ⟨rfl, rfl, rfl⟩ := quoted.inj hl
    exact ⟨hquote, .inl rfl⟩
  · obtain ⟨rfl, rfl, rfl⟩ := quoted.inj hl
    exact ⟨hquote, .inr ⟨c, hc, rfl⟩⟩

theorem isBlank_of_mem_scan {cs run : List Char} (h : .blanks run ∈ scan cs) :
    run ≠ [] ∧ ∀ c ∈ run, isBlank c = true := by
  obtain ⟨d, ds, rest, hcut⟩ := exists_cut_of_mem_scan h
  cases hcut with
  | blanks hd =>
      refine ⟨List.cons_ne_nil _ _, List.forall_mem_cons.2 ⟨hd, ?_⟩⟩
      exact List.all_eq_true.1 List.all_takeWhile

/-- A piece of the source that no token stands for: a comment, or a run of spaces,
tabs and carriage returns. -/
def IsSkipped (piece : List Char) : Prop :=
  (∃ text, piece = '#' :: text ∧ '\n' ∉ text) ∨
    piece ≠ [] ∧ ∀ c ∈ piece, c = ' ' ∨ c = '\t' ∨ c = '\r'

end Lexeme

namespace Token

/-! ### Pieces and their tokens -/

/-- A token stands for a piece of the source, unless it opens or closes a block. -/
def isWritten (t : Token) : Bool := t.kind ≠ .indent && t.kind ≠ .dedent

/-- The piece of the source that a token stands for is its text. Strings have their
quotes around it, and f-strings their marker before that. -/
def IsWrittenAs (t : Token) (piece : List Char) : Prop :=
  match t.kind with
  | .string => ∃ quote ∈ Lexeme.quotes, piece = quote :: (t.text.toList ++ [quote])
  | .fstring =>
    ∃ marker ∈ Lexeme.markers, ∃ quote ∈ Lexeme.quotes,
      piece = marker :: quote :: (t.text.toList ++ [quote])
  | _ => piece = t.text.toList

/-- The token that a lexeme stands for, line ends included. -/
def ofLexeme? (line : Nat) : Lexeme → Option Token
  | .newline => some (newline line)
  | l => l.token? line

/-- The spellings of lexemes, the first of which stands on `line`, each with its
token. -/
def pieces (line : Nat) : List Lexeme → List (List Char × Option Token)
  | [] => []
  | l :: ls => (l.spelling, ofLexeme? line l) :: pieces (line + l.spelling.count '\n') ls

theorem map_fst_pieces (line : Nat) (ls : List Lexeme) :
    (pieces line ls).map Prod.fst = ls.map Lexeme.spelling := by
  induction ls generalizing line with
  | nil => rfl
  | cons l ls ih => rw [pieces, List.map_cons, ih, List.map_cons]

theorem ofLexeme?_of_ne {l : Lexeme} (h : l ≠ .newline) (line : Nat) :
    ofLexeme? line l = l.token? line := by
  cases l with
  | newline => exact absurd rfl h
  | _ => rfl

theorem filter_isWritten_shiftAt (line : Nat) (ls : List Lexeme) (blocks : List Nat) :
    (shiftAt line ls blocks).1.filter isWritten = [] := by
  refine List.filter_eq_nil_iff.2 fun t ht => ?_
  rcases kind_of_mem_shiftAt ht with hkind | hkind <;> simp [isWritten, hkind]

/-- The tokens that stand for pieces are those of the layout, in the same order. -/
theorem filterMap_snd_pieces {ls : List Lexeme} (line : Nat) (blocks : List Nat)
    (hls : ∀ l ∈ ls, l ≠ .newline → '\n' ∉ l.spelling) :
    (pieces line ls).filterMap Prod.snd = (layout line blocks ls).filter isWritten := by
  induction ls generalizing line blocks with
  | nil =>
      have hnone : (blocks.map (dedent line)).filter isWritten = [] := by
        simp [isWritten, dedent]
      exact hnone.symm
  | cons l ls ih =>
      obtain ⟨hfirst, hrest⟩ := List.forall_mem_cons.1 hls
      by_cases hl : l = .newline
      · subst hl
        rw [layout_newline, lineOn, List.filter_cons_of_pos rfl, List.filter_append,
          filter_isWritten_shiftAt, List.nil_append, ← ih (line + 1) _ hrest]
        rfl
      · have hcount : l.spelling.count '\n' = 0 := List.count_eq_zero.2 (hfirst hl)
        have htoken : (l.token? line).toList.filter isWritten = (l.token? line).toList := by
          refine List.filter_eq_self.2 fun t ht => ?_
          obtain ⟨hindent, hdedent⟩ := token?_kind (Option.mem_toList.1 ht)
          simp [isWritten, hindent, hdedent]
        rw [pieces, hcount, Nat.add_zero, ofLexeme?_of_ne hl, layout_cons hl, List.filter_append,
          htoken, ← ih line blocks hrest]
        cases l.token? line <;> rfl

/-- A piece stands for a lexeme among others. Its line is counted by the line ends in
the pieces before it, and the pieces after it spell the lexemes after its own. -/
theorem exists_split_of_pieces {line : Nat} {ls : List Lexeme}
    {before after : List (List Char × Option Token)} {piece : List Char} {token : Option Token}
    (h : pieces line ls = before ++ (piece, token) :: after) :
    ∃ front l back, ls = front ++ l :: back ∧ piece = l.spelling ∧
      token = ofLexeme? (line + (before.map Prod.fst).flatten.count '\n') l ∧
      (after.map Prod.fst).flatten = back.flatMap Lexeme.spelling := by
  induction before generalizing line ls with
  | nil =>
      cases ls with
      | nil => cases h
      | cons l ls =>
          obtain ⟨hpiece, hafter⟩ := List.cons.inj h
          obtain ⟨rfl, rfl⟩ := Prod.mk.inj hpiece
          refine ⟨[], l, ls, rfl, rfl, rfl, ?_⟩
          rw [← hafter, map_fst_pieces, List.flatMap_def]
  | cons first before ih =>
      cases ls with
      | nil => cases h
      | cons l ls =>
          obtain ⟨rfl, hrest⟩ := List.cons.inj h
          obtain ⟨front, m, back, rfl, hpiece, htoken, hafter⟩ := ih hrest
          refine ⟨l :: front, m, back, rfl, hpiece, htoken.trans ?_, hafter⟩
          rw [List.map_cons, List.flatten_cons, List.count_append, Nat.add_assoc]

theorem exists_lexeme_of_pieces {line : Nat} {ls : List Lexeme}
    {before after : List (List Char × Option Token)} {piece : List Char} {token : Option Token}
    (h : pieces line ls = before ++ (piece, token) :: after) :
    ∃ l ∈ ls, piece = l.spelling ∧
      token = ofLexeme? (line + (before.map Prod.fst).flatten.count '\n') l := by
  obtain ⟨front, l, back, rfl, hpiece, htoken, -⟩ := exists_split_of_pieces h
  exact ⟨l, by simp, hpiece, htoken⟩

theorem isSkipped_of_ofLexeme? {source : List Char} {l : Lexeme} (hl : l ∈ Lexeme.scan source)
    {line : Nat} (h : ofLexeme? line l = none) : Lexeme.IsSkipped l.spelling := by
  cases l with
  | comment text =>
      have hnewline := Lexeme.newline_not_mem_spelling hl (by simp)
      exact .inl ⟨text, rfl, fun hmem => hnewline (List.mem_cons_of_mem _ hmem)⟩
  | blanks run =>
      obtain ⟨hne, hrun⟩ := Lexeme.isBlank_of_mem_scan hl
      refine .inr ⟨hne, fun c hc => ?_⟩
      simpa [Lexeme.isBlank, or_assoc] using hrun c hc
  | quoted marker _ _ => cases marker <;> cases h
  | _ => cases h

theorem isWrittenAs_of_ofLexeme? {source : List Char} {l : Lexeme} (hl : l ∈ Lexeme.scan source)
    {line : Nat} {t : Token} (h : ofLexeme? line l = some t) : t.IsWrittenAs l.spelling := by
  cases l with
  | comment _ | blanks _ => cases h
  | quoted marker quote body =>
      obtain ⟨hquote, rfl | ⟨c, hc, rfl⟩⟩ := Lexeme.quote_of_mem_scan hl
      · obtain rfl := Option.some.inj h
        exact ⟨quote, hquote, by simp [Lexeme.spelling]⟩
      · obtain rfl := Option.some.inj h
        exact ⟨c, hc, quote, hquote, by simp [Lexeme.spelling]⟩
  | word letters =>
      obtain rfl := Option.some.inj h
      unfold IsWrittenAs
      by_cases hletters : letters ∈ Lexeme.keywords <;> simp [hletters, Lexeme.spelling]
  | number _ | operator _ | delimiter _ | dot | newline | stray _ =>
      obtain rfl := Option.some.inj h
      simp [IsWrittenAs, Lexeme.spelling, newline]

theorem line_of_ofLexeme? {l : Lexeme} {line : Nat} {t : Token} (h : ofLexeme? line l = some t) :
    t.line = line := by
  by_cases hl : l = .newline
  · subst hl
    obtain rfl := Option.some.inj h
    rfl
  · rw [ofLexeme?_of_ne hl] at h
    exact (Lexeme.token?_line h).1

theorem kind_of_ofLexeme? {source : List Char} {l : Lexeme} (hl : l ∈ Lexeme.scan source)
    {line : Nat} {t : Token} (h : ofLexeme? line l = some t) :
    t.kind = .newline ↔ '\n' ∈ l.spelling := by
  by_cases hnewline : l = .newline
  · subst hnewline
    obtain rfl := Option.some.inj h
    simp [newline, Lexeme.spelling]
  · rw [ofLexeme?_of_ne hnewline] at h
    have hkind := token?_kind_ne_newline h
    have hspelling := Lexeme.newline_not_mem_spelling hl hnewline
    exact ⟨fun heq => absurd heq hkind, fun hmem => absurd hmem hspelling⟩

/-! ### Line ends -/

/-- The line ends of a program are numbered one after the other. -/
theorem filter_newline_layout (line : Nat) (blocks : List Nat) (ls : List Lexeme) :
    (layout line blocks ls).filter (·.kind = .newline) =
      (List.range' line (ls.count .newline)).map newline := by
  induction ls generalizing line blocks with
  | nil => simp [layout, dedent]
  | cons l ls ih =>
      by_cases hl : l = .newline
      · subst hl
        have hshift : (shiftAt (line + 1) ls blocks).1.filter (·.kind = .newline) = [] := by
          refine List.filter_eq_nil_iff.2 fun t ht => ?_
          rcases kind_of_mem_shiftAt ht with hkind | hkind <;> simp [hkind]
        rw [layout_newline, lineOn, List.filter_cons_of_pos rfl, List.filter_append, hshift,
          List.nil_append, ih, List.count_cons_self, List.range'_succ, List.map_cons]
      · have htoken : (l.token? line).toList.filter (·.kind = .newline) = [] := by
          refine List.filter_eq_nil_iff.2 fun t ht => ?_
          simpa using token?_kind_ne_newline (Option.mem_toList.1 ht)
        rw [layout_cons hl, List.filter_append, htoken, List.nil_append, ih,
          List.count_cons_of_ne hl]

/-- **The tokens of a program cover its source.** The source is a row of pieces,
each of which is a comment or a run of blanks, or stands for one token: its text,
with the quotes and the marker of a string around it. The tokens of the pieces are
those of the program in their order, apart from those that open and close blocks.
The line of a token is one more than the number of line ends in the pieces before
its own, and a token is a line end exactly if there is one in its piece; so the
line ends among the tokens are those of the source, one on each line but the last. -/
theorem exists_pieces_ofProgram (source : List Char) :
    ∃ pieces : List (List Char × Option Token),
      (pieces.map Prod.fst).flatten = source ∧
      pieces.filterMap Prod.snd = (ofProgram source).filter isWritten ∧
      (∀ before piece after, pieces = before ++ (piece, none) :: after → Lexeme.IsSkipped piece) ∧
      (∀ before piece t after, pieces = before ++ (piece, some t) :: after →
        piece ≠ [] ∧ t.IsWrittenAs piece ∧
        t.line = 1 + (before.map Prod.fst).flatten.count '\n' ∧
        (t.kind = .newline ↔ '\n' ∈ piece)) ∧
      (ofProgram source).filter (·.kind = .newline) =
        (List.range' 1 (source.count '\n')).map newline := by
  have hhidden : ∀ l ∈ Lexeme.scan source, l ≠ .newline → '\n' ∉ l.spelling :=
    fun l hl => Lexeme.newline_not_mem_spelling hl
  refine ⟨pieces 1 (Lexeme.scan source), ?_, filterMap_snd_pieces 1 [] hhidden, ?_, ?_, ?_⟩
  · rw [map_fst_pieces, ← List.flatMap_def, Lexeme.flatMap_spelling_scan]
  · intro before piece after h
    obtain ⟨l, hl, rfl, htoken⟩ := exists_lexeme_of_pieces h
    exact isSkipped_of_ofLexeme? hl htoken.symm
  · intro before piece t after h
    obtain ⟨l, hl, rfl, htoken⟩ := exists_lexeme_of_pieces h
    exact ⟨Lexeme.spelling_ne_nil_of_mem_scan hl, isWrittenAs_of_ofLexeme? hl htoken.symm,
      line_of_ofLexeme? htoken.symm, kind_of_ofLexeme? hl htoken.symm⟩
  · rw [ofProgram, filter_newline_layout, Lexeme.count_newline_scan]

end Token

end Offside
