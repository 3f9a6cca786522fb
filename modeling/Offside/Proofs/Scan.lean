import Offside.Token.Lexeme

/-!
# Offside.Proofs.Scan

No lexeme goes past the end of its line, so a text is cut into lexemes **line by
line**: the lexemes of a line do not depend on the lines after it. Main
statement: `scan_append_newline`. Statements about all texts are then shown by
induction on the lines (`lineInduction`).

What may stand at the end of a line is said once (`IsLineTail`), for a line end and
for a carriage return before it.
-/

namespace Offside.Lexeme

/-! ### The end of a line -/

/-- A text with which a line may end. A comment or a run of blanks may go on into
it, but no other lexeme does. -/
structure IsLineTail (tail : List Char) : Prop where
  head : ∀ c ∈ tail.head?, c = '\n' ∨ c = '\r'
  unclosed : ∀ quote, quote = '"' ∨ quote = '\'' → quotedBody quote tail = none
  unescaped : ∀ quote, quotedBody quote ('\\' :: tail) = none

theorem IsLineTail.class_eq_false {tail : List Char} (h : IsLineTail tail) {p : Char → Bool}
    (hnewline : p '\n' = false) (hreturn : p '\r' = false) : ∀ c ∈ tail.head?, p c = false := by
  intro c hc
  rcases h.head c hc with rfl | rfl
  · exact hnewline
  · exact hreturn

theorem takeWhile_append_tail {p : Char → Bool} {tail : List Char}
    (h : ∀ c ∈ tail.head?, p c = false) (cs : List Char) :
    (cs ++ tail).takeWhile p = cs.takeWhile p := by
  induction cs with
  | nil =>
      cases tail with
      | nil => rfl
      | cons c tail => simp [h c rfl]
  | cons d cs ih => by_cases hd : p d <;> simp [hd, ih]

theorem dropWhile_append_tail {p : Char → Bool} {tail : List Char}
    (h : ∀ c ∈ tail.head?, p c = false) (cs : List Char) :
    (cs ++ tail).dropWhile p = cs.dropWhile p ++ tail := by
  induction cs with
  | nil =>
      cases tail with
      | nil => rfl
      | cons c tail => simp [h c rfl]
  | cons d cs ih => by_cases hd : p d <;> simp [hd, ih]

theorem quotedBody_cons {quote c : Char} (hc : c ≠ '\\') (cs : List Char) :
    quotedBody quote (c :: cs) =
      if c = quote then some ([], cs)
      else if c = '\n' then none
      else (quotedBody quote cs).map fun (body, rest) => (c :: body, rest) := by
  rw [quotedBody]
  · simp only [hc, or_false]
  · exact fun _ _ h => absurd h hc

theorem isLineTail_newline (rest : List Char) : IsLineTail ('\n' :: rest) := by
  refine ⟨?_, ?_, fun quote => rfl⟩
  · intro c hc
    exact .inl (Option.some.inj hc).symm
  · intro quote hquote
    have hne : '\n' ≠ quote := by rcases hquote with rfl | rfl <;> decide
    rw [quotedBody_cons (by decide), if_neg hne, if_pos rfl]

section

variable {tail : List Char} (h : IsLineTail tail)
include h

/-- A literal that is not closed before the end of its line is not closed
there. -/
theorem quotedBody_append_tail {quote : Char} (hquote : quote = '"' ∨ quote = '\'')
    (cs : List Char) :
    quotedBody quote (cs ++ tail) =
      (quotedBody quote cs).map fun (body, after) => (body, after ++ tail) := by
  fun_induction quotedBody quote cs with
  | case1 => exact h.unclosed quote hquote
  | case2 cs => rfl
  | case3 c cs hc ih =>
      simp only [List.cons_append, quotedBody, hc, if_false, ih, Option.map_map]
      rfl
  | case4 cs =>
      have hescape : quote ≠ '\\' := by rcases hquote with rfl | rfl <;> decide
      rw [List.cons_append, quotedBody_cons hescape, if_pos rfl]
      rfl
  | case5 c cs hescape hne hc =>
      rcases hc with rfl | rfl
      · rw [List.cons_append, quotedBody_cons (by decide), if_neg hne, if_pos rfl]
        rfl
      · -- A backslash at the end of the line takes the next character along.
        cases cs with
        | nil => exact h.unescaped quote
        | cons d cs => exact absurd rfl (hescape d cs rfl)
  | case6 c cs _ hne hc ih =>
      obtain ⟨hline, hescape⟩ := not_or.1 hc
      rw [List.cons_append, quotedBody_cons hescape, if_neg hne, if_neg hline, ih, Option.map_map,
        Option.map_map]
      rfl

theorem quotedAfter_append_tail (marker cs : List Char) :
    quotedAfter marker (cs ++ tail) =
      (quotedAfter marker cs).map fun (l, after) => (l, after ++ tail) := by
  cases cs with
  | nil =>
      cases tail with
      | nil => rfl
      | cons c tail =>
          have hquote : ¬(c = '"' ∨ c = '\'') := by
            rcases h.head c rfl with rfl | rfl <;> decide
          simp only [List.nil_append, quotedAfter, hquote, if_false, Option.map_none]
  | cons q cs =>
      simp only [List.cons_append, quotedAfter]
      split
      · rename_i hquote
        rw [quotedBody_append_tail h hquote, Option.map_map, Option.map_map]
        rfl
      · rfl

theorem quoted?_append_tail (c : Char) (cs : List Char) :
    quoted? (c :: (cs ++ tail)) =
      (quoted? (c :: cs)).map fun (l, after) => (l, after ++ tail) := by
  simp only [quoted?]
  split
  · exact quotedAfter_append_tail h [c] cs
  · exact quotedAfter_append_tail h [] (c :: cs)

theorem fraction_append_tail (cs : List Char) :
    fraction (cs ++ tail) = ((fraction cs).1, (fraction cs).2 ++ tail) := by
  have hdigit : ∀ c ∈ tail.head?, c.isDigit = false := h.class_eq_false rfl rfl
  match cs with
  | [] =>
      cases tail with
      | nil => rfl
      | cons c tail => rcases h.head c rfl with rfl | rfl <;> rfl
  | [c] =>
      by_cases hc : c = '.'
      · subst hc
        cases tail with
        | nil => rfl
        | cons d tail => simp [fraction, hdigit d rfl]
      · simp [fraction, hc]
  | c :: d :: cs =>
      by_cases hc : c = '.'
      · subst hc
        by_cases hd : d.isDigit
        · simp [fraction, hd, takeWhile_append_tail hdigit, dropWhile_append_tail hdigit]
        · simp [fraction, hd]
      · simp [fraction, hc]

end

theorem isPrefixOf_append_tail {tail symbol : List Char}
    (hsymbol : ∀ c ∈ tail.head?, c ∉ symbol) (cs : List Char) :
    symbol.isPrefixOf (cs ++ tail) = symbol.isPrefixOf cs := by
  induction symbol generalizing cs with
  | nil => cases cs <;> simp
  | cons s symbol ih =>
      cases cs with
      | nil =>
          cases tail with
          | nil => rfl
          | cons c tail =>
              have hc : s ≠ c := fun heq => hsymbol c rfl (heq ▸ List.mem_cons_self)
              simp [List.isPrefixOf, hc]
      | cons c cs =>
          have hrest : ∀ c ∈ tail.head?, c ∉ symbol :=
            fun c hc hmem => hsymbol c hc (List.mem_cons_of_mem s hmem)
          simp only [List.cons_append, List.isPrefixOf, ih hrest]

/-- The operator at the head of a text depends on which symbols the text starts
with. -/
theorem find?_isPrefixOf_congr {symbols : List (List Char)} {cs ds : List Char}
    (h : ∀ s ∈ symbols, s.isPrefixOf cs = s.isPrefixOf ds) :
    symbols.find? (·.isPrefixOf cs) = symbols.find? (·.isPrefixOf ds) := by
  induction symbols with
  | nil => rfl
  | cons s symbols ih =>
      obtain ⟨hs, hsymbols⟩ := List.forall_mem_cons.1 h
      rw [List.find?_cons, List.find?_cons, hs, ih hsymbols]

/-- A symbol stays the one that starts a text, unless the text after it makes a
longer symbol of it. -/
theorem find?_isPrefixOf_append {symbols : List (List Char)} {symbol rest : List Char}
    (hself : symbols.find? (·.isPrefixOf symbol) = some symbol)
    (hrest : ∀ c tail, symbol ++ c :: tail ∈ symbols → rest.head? ≠ some c) :
    symbols.find? (·.isPrefixOf (symbol ++ rest)) = some symbol := by
  rw [← hself]
  refine find?_isPrefixOf_congr fun s hs => ?_
  refine Bool.eq_iff_iff.2 ?_
  rw [List.isPrefixOf_iff_prefix, List.isPrefixOf_iff_prefix]
  refine ⟨fun hstarts => ?_, fun hstarts => hstarts.trans (List.prefix_append symbol rest)⟩
  by_cases hlength : s.length ≤ symbol.length
  · exact List.prefix_of_prefix_length_le hstarts (List.prefix_append symbol rest) hlength
  · -- The longer symbol `s` would go on with the first character of `rest`.
    obtain ⟨tail, rfl⟩ := List.prefix_of_prefix_length_le (List.prefix_append symbol rest) hstarts
      (by omega)
    have htail : tail <+: rest := (List.prefix_append_right_inj symbol).1 hstarts
    cases tail with
    | nil => exact absurd (by simp) hlength
    | cons c tail =>
        obtain ⟨after, rfl⟩ := htail
        exact absurd rfl (hrest c tail hs)

theorem operator?_append_tail {tail : List Char} (h : IsLineTail tail) (cs : List Char) :
    operator? (cs ++ tail) = (operator? cs).map fun (l, after) => (l, after ++ tail) := by
  have hline : ∀ s ∈ operators, '\n' ∉ s ∧ '\r' ∉ s := by decide
  have hcongr : ∀ s ∈ operators, s.isPrefixOf (cs ++ tail) = s.isPrefixOf cs := by
    intro s hs
    refine isPrefixOf_append_tail (fun c hc => ?_) cs
    rcases h.head c hc with rfl | rfl
    · exact (hline s hs).1
    · exact (hline s hs).2
  rw [operator?, operator?, find?_isPrefixOf_congr hcongr, Option.map_map]
  cases hfound : operators.find? (·.isPrefixOf cs) with
  | none => rfl
  | some symbol =>
      have hprefix : symbol <+: cs :=
        List.isPrefixOf_iff_prefix.1 (by simpa using List.find?_some hfound)
      simp [List.drop_append_of_le_length hprefix.length_le]

/-- A lexeme ends with its line, unless it is a comment or a run of blanks. -/
theorem next_append_tail {tail : List Char} (h : IsLineTail tail) {c : Char} (hhash : c ≠ '#')
    (hblank : isBlank c = false) (cs : List Char) :
    next c (cs ++ tail) = ((next c cs).1, (next c cs).2 ++ tail) := by
  have hword : ∀ c ∈ tail.head?, isWordPart c = false := h.class_eq_false rfl rfl
  have hdigit : ∀ c ∈ tail.head?, c.isDigit = false := h.class_eq_false rfl rfl
  -- The branches of `next`, in order. Each of them stops before the tail.
  unfold next
  rw [quoted?_append_tail h, ← List.cons_append, operator?_append_tail h, if_neg hhash,
    if_neg hhash]
  cases hquoted : quoted? (c :: cs) with
  | some found => rfl
  | none =>
      simp only [Option.map_none]
      split
      · rw [takeWhile_append_tail hword, dropWhile_append_tail hword]
      · split
        · rw [takeWhile_append_tail hdigit, dropWhile_append_tail hdigit, fraction_append_tail h]
        · cases hop : operator? (c :: cs) with
          | some found => rfl
          | none =>
              simp only [Option.map_none]
              split
              · rfl
              · split
                · rfl
                · split
                  · rfl
                  · simp only [hblank, Bool.false_eq_true, if_false]

/-! ### Blanks and comments -/

theorem next_comment (cs : List Char) :
    next '#' cs = (comment (cs.takeWhile (· ≠ '\n')), cs.dropWhile (· ≠ '\n')) := by
  rw [next, if_pos rfl]

theorem next_blank {c : Char} (h : isBlank c = true) (cs : List Char) :
    next c cs = (blanks (c :: cs.takeWhile isBlank), cs.dropWhile isBlank) := by
  simp only [isBlank, Bool.or_eq_true, decide_eq_true_eq] at h
  rcases h with (rfl | rfl) | rfl <;> rfl

/-- The lexeme at the head of a line does not depend on the lines after it. -/
theorem next_append_newline (c : Char) (cs rest : List Char) :
    next c (cs ++ '\n' :: rest) = ((next c cs).1, (next c cs).2 ++ '\n' :: rest) := by
  by_cases hhash : c = '#'
  · subst hhash
    have hline : ∀ d ∈ ('\n' :: rest).head?, decide (d ≠ '\n') = false := by simp
    rw [next_comment, next_comment, takeWhile_append_tail hline, dropWhile_append_tail hline]
  · cases hblank : isBlank c with
    | true =>
        have hline : ∀ d ∈ ('\n' :: rest).head?, isBlank d = false := by simp [isBlank]
        rw [next_blank hblank, next_blank hblank, takeWhile_append_tail hline,
          dropWhile_append_tail hline]
    | false => exact next_append_tail (isLineTail_newline rest) hhash hblank cs

theorem takeWhile_append_of_head {p : Char → Bool} {cs rest : List Char}
    (hcs : ∀ c ∈ cs, p c = true) (hrest : ∀ c ∈ rest.head?, p c = false) :
    (cs ++ rest).takeWhile p = cs := by
  rw [List.takeWhile_append_of_pos hcs]
  cases rest with
  | nil => simp
  | cons c rest => simp [hrest c rfl]

theorem dropWhile_append_of_head {p : Char → Bool} {cs rest : List Char}
    (hcs : ∀ c ∈ cs, p c = true) (hrest : ∀ c ∈ rest.head?, p c = false) :
    (cs ++ rest).dropWhile p = rest := by
  rw [List.dropWhile_append_of_pos hcs]
  cases rest with
  | nil => rfl
  | cons c rest => simp [hrest c rfl]

theorem scan_blanks {run rest : List Char} (hne : run ≠ []) (hrun : ∀ c ∈ run, isBlank c = true)
    (hrest : ∀ c ∈ rest.head?, isBlank c = false) :
    scan (run ++ rest) = .blanks run :: scan rest := by
  cases run with
  | nil => exact absurd rfl hne
  | cons c run =>
      obtain ⟨hc, hrun⟩ := List.forall_mem_cons.1 hrun
      rw [List.cons_append, scan_cons, next_blank hc, takeWhile_append_of_head hrun hrest,
        dropWhile_append_of_head hrun hrest]

theorem scan_comment {text : List Char} (h : '\n' ∉ text) :
    scan ('#' :: text) = [.comment text] := by
  have htext : ∀ c ∈ text, decide (c ≠ '\n') = true := by
    intro c hc
    exact decide_eq_true fun heq => h (heq ▸ hc)
  have hend : ∀ c ∈ ([] : List Char).head?, decide (c ≠ '\n') = false := by simp
  have hnext : next '#' (text ++ []) = (comment text, []) := by
    rw [next_comment, takeWhile_append_of_head htext hend, dropWhile_append_of_head htext hend]
  rw [List.append_nil] at hnext
  rw [scan_cons, hnext, scan_nil]

/-- A line of spaces and tabs, with a comment or without. -/
def IsBlankLine (l : List Char) : Prop :=
  ∃ run comment, l = run ++ comment ∧ (∀ c ∈ run, c = ' ' ∨ c = '\t') ∧
    (comment = [] ∨ ∃ text, comment = '#' :: text ∧ '\n' ∉ text)

/-- The lexemes of a blank line: perhaps blanks, and perhaps a comment. -/
theorem scan_isBlankLine {l : List Char} (h : IsBlankLine l) :
    ∃ blank comment, scan l = blank ++ comment ∧
      (blank = [] ∨ ∃ run, blank = [.blanks run]) ∧
      (comment = [] ∨ ∃ text, comment = [.comment text]) := by
  obtain ⟨run, comment, rfl, hrun, hcomment⟩ := h
  have hblank : ∀ c ∈ run, isBlank c = true := by
    intro c hc
    rcases hrun c hc with rfl | rfl <;> rfl
  have hhead : ∀ c ∈ comment.head?, isBlank c = false := by
    rcases hcomment with rfl | ⟨text, rfl, -⟩
    · simp
    · rintro _ ⟨⟩
      rfl
  have hscan : scan comment = [] ∨ ∃ text, scan comment = [.comment text] := by
    rcases hcomment with rfl | ⟨text, rfl, htext⟩
    · exact .inl scan_nil
    · exact .inr ⟨text, scan_comment htext⟩
  by_cases hne : run = []
  · subst hne
    exact ⟨[], scan comment, rfl, .inl rfl, hscan⟩
  · exact ⟨[.blanks run], scan comment, scan_blanks hne hblank hhead, .inr ⟨run, rfl⟩, hscan⟩

/-! ### Lines -/

theorem scan_newline (rest : List Char) : scan ('\n' :: rest) = .newline :: scan rest := by
  rw [scan_cons]
  rfl

/-- The lexemes of a line do not depend on the lines after it. -/
theorem scan_append_newline (cs rest : List Char) :
    scan (cs ++ '\n' :: rest) = scan cs ++ .newline :: scan rest := by
  fun_induction scan cs with
  | case1 => exact scan_newline rest
  | case2 c cs ih =>
      rw [List.cons_append, scan_cons, next_append_newline, ih, List.cons_append]

theorem newline_not_mem_scan {cs : List Char} (h : '\n' ∉ cs) : .newline ∉ scan cs := by
  intro hmem
  refine h ?_
  rw [← flatMap_spelling_scan cs]
  exact List.mem_flatMap.2 ⟨.newline, hmem, List.mem_singleton_self _⟩

/-- What holds of a line alone, and of a line in front of a text of which it holds,
holds of every text. -/
@[elab_as_elim]
theorem lineInduction {motive : List Char → Prop} (last : ∀ l, '\n' ∉ l → motive l)
    (line : ∀ l rest, '\n' ∉ l → motive rest → motive (l ++ '\n' :: rest)) (cs : List Char) :
    motive cs := by
  by_cases h : '\n' ∈ cs
  · obtain ⟨l, rest, hcs, hl⟩ := List.eq_append_cons_of_mem h
    rw [hcs]
    exact line l rest hl (lineInduction last line rest)
  · exact last cs h
termination_by cs.length
decreasing_by
  rw [hcs, List.length_append, List.length_cons]
  omega

/-- The line ends among the lexemes are those of the text. -/
theorem count_newline_scan (cs : List Char) : (scan cs).count .newline = cs.count '\n' := by
  induction cs using lineInduction with
  | last l hl => rw [List.count_eq_zero.2 hl, List.count_eq_zero.2 (newline_not_mem_scan hl)]
  | line l rest hl ih =>
      rw [scan_append_newline, List.count_append, List.count_append, List.count_cons_self,
        List.count_cons_self, List.count_eq_zero.2 hl,
        List.count_eq_zero.2 (newline_not_mem_scan hl), ih]

/-! ### One lexeme of a text -/

/-- A lexeme is cut from the front of what the lexemes before it leave of the text, and
the lexemes after it are those of the rest. -/
theorem exists_next_of_scan_eq {cs : List Char} {front back : List Lexeme} {l : Lexeme}
    (h : scan cs = front ++ l :: back) :
    ∃ d ds, (next d ds).1 = l ∧ back = scan (next d ds).2 := by
  induction front generalizing cs with
  | nil =>
      cases cs with
      | nil => simp at h
      | cons c cs =>
          rw [scan_cons] at h
          obtain ⟨hfirst, hback⟩ := List.cons.inj h
          exact ⟨c, cs, hfirst, hback.symm⟩
  | cons m front ih =>
      cases cs with
      | nil => simp at h
      | cons c cs =>
          rw [scan_cons] at h
          exact ih (List.cons.inj h).2

theorem exists_next_of_mem_scan {cs : List Char} {l : Lexeme} (h : l ∈ scan cs) :
    ∃ d ds, (next d ds).1 = l := by
  obtain ⟨front, back, hscan⟩ := List.append_of_mem h
  obtain ⟨d, ds, hnext, -⟩ := exists_next_of_scan_eq hscan
  exact ⟨d, ds, hnext⟩

end Offside.Lexeme
