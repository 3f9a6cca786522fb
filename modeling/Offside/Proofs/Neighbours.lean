import Mathlib.Data.List.Chain
import Offside.Proofs.Blocks

/-!
# Offside.Proofs.Neighbours

What may stand **next to** what. Blanks are cut as one run and a comment takes
the rest of its line (`isChain_scan`), so a line that opens a block goes on with
a token of its own: in the tokens of a program, an `indent` is never at the end,
before a line end or before a `dedent` (`opensOnText_ofProgram`).

The cases of `Lexeme.next` are listed once, by `Lexeme.Cut`.
-/

namespace Offside

namespace Lexeme

/-! ### How a lexeme is cut -/

/-- The lexeme that is cut from the front of the text `c :: cs`, and the text
after it. -/
inductive Cut (c : Char) (cs : List Char) : Lexeme → List Char → Prop where
  | comment : c = '#' → Cut c cs (.comment (cs.takeWhile (· ≠ '\n'))) (cs.dropWhile (· ≠ '\n'))
  | quoted (marker : List Char) (quote : Char) (body rest : List Char) :
      Cut c cs (.quoted marker quote body) rest
  | word : isWordStart c = true →
      Cut c cs (.word (c :: cs.takeWhile isWordPart)) (cs.dropWhile isWordPart)
  | number (digits rest : List Char) : c.isDigit = true → Cut c cs (.number (c :: digits)) rest
  | operator (symbol rest : List Char) : Cut c cs (.operator symbol) rest
  | delimiter : Cut c cs (.delimiter c) cs
  | dot : Cut c cs .dot cs
  | newline : c = '\n' → Cut c cs .newline cs
  | blanks : isBlank c = true →
      Cut c cs (.blanks (c :: cs.takeWhile isBlank)) (cs.dropWhile isBlank)
  | stray : Cut c cs (.stray c) cs

theorem next_cut (c : Char) (cs : List Char) : Cut c cs (next c cs).1 (next c cs).2 := by
  unfold next
  split
  · rename_i hc
    exact .comment hc
  · split
    · rename_i found hfound
      obtain ⟨marker, quote, body, hlexeme, -⟩ :=
        quoted?_eq_some (show _ = some (found.1, found.2) from hfound)
      rw [hlexeme]
      exact .quoted marker quote body found.2
    · split
      · rename_i hc
        exact .word hc
      · split
        · rename_i hc
          exact .number _ _ hc
        · split
          · rename_i found hfound
            obtain ⟨symbol, -, rfl⟩ := Option.map_eq_some_iff.1 hfound
            exact .operator _ _
          · split
            · exact .delimiter
            · split
              · exact .dot
              · split
                · rename_i hc
                  exact .newline hc
                · split
                  · rename_i hc
                    exact .blanks hc
                  · exact .stray

theorem isWordPart_of_isWordStart {c : Char} (h : isWordStart c = true) : isWordPart c = true := by
  simp only [isWordStart, isWordPart, Char.isAlphanum, Bool.or_eq_true] at h ⊢
  exact h.imp_left .inl

theorem exists_cut_of_mem_scan {cs : List Char} {l : Lexeme} (h : l ∈ scan cs) :
    ∃ d ds rest, Cut d ds l rest := by
  obtain ⟨d, ds, rfl⟩ := exists_next_of_mem_scan h
  exact ⟨d, ds, _, next_cut d ds⟩

/-- Words are made of the characters of words. -/
theorem isWordPart_of_mem_scan {cs letters : List Char} (h : .word letters ∈ scan cs) {c : Char}
    (hc : c ∈ letters) : isWordPart c = true := by
  obtain ⟨d, ds, rest, hcut⟩ := exists_cut_of_mem_scan h
  cases hcut with
  | word hd =>
      rcases List.mem_cons.1 hc with rfl | htail
      · exact isWordPart_of_isWordStart hd
      · exact (List.all_eq_true.1 (List.all_takeWhile)) c htail

/-! ### Two lexemes in a row -/

/-- The second lexeme may come directly after the first one. -/
def Neighbours : Lexeme → Lexeme → Prop
  | .blanks _, .blanks _ => False
  | .comment _, l => l = .newline
  | _, _ => True

theorem eq_false_of_head?_dropWhile {p : Char → Bool} {cs : List Char} {c : Char}
    (h : c ∈ (cs.dropWhile p).head?) : p c = false := by
  have hstop := List.head?_dropWhile_not p cs
  rwa [Option.mem_def.1 h] at hstop

theorem exists_cons_of_head?_scan {cs : List Char} {l : Lexeme} (h : l ∈ (scan cs).head?) :
    ∃ d ds, d ∈ cs.head? ∧ (next d ds).1 = l := by
  cases cs with
  | nil => simp at h
  | cons d ds =>
      rw [scan_cons] at h
      exact ⟨d, ds, rfl, Option.some.inj h⟩

theorem neighbours_next (c : Char) (cs : List Char) :
    ∀ l ∈ (scan (next c cs).2).head?, Neighbours (next c cs).1 l := by
  intro l hl
  obtain ⟨d, ds, hd, rfl⟩ := exists_cons_of_head?_scan hl
  have hcut := next_cut c cs
  generalize (next c cs).1 = first, (next c cs).2 = rest at hcut hd
  cases hcut with
  | comment _ =>
      have hnewline : d = '\n' := by simpa using eq_false_of_head?_dropWhile hd
      subst hnewline
      rfl
  | blanks _ =>
      have hblank : isBlank d = false := eq_false_of_head?_dropWhile hd
      have hnext := next_cut d ds
      generalize (next d ds).1 = second, (next d ds).2 = after at hnext
      cases hnext with
      | blanks h => exact absurd (h.symm.trans hblank) (by decide)
      | _ => trivial
  | _ => trivial

/-- No two runs of blanks stand side by side, and a comment goes up to the end of
its line. -/
theorem isChain_scan (cs : List Char) : (scan cs).IsChain Neighbours := by
  fun_induction scan cs with
  | case1 => exact .nil
  | case2 c cs ih => exact List.isChain_cons.2 ⟨neighbours_next c cs, ih⟩

end Lexeme

namespace Token

/-! ### Where the tokens of a program come from -/

theorem token?_isSome {l : Lexeme} {ls : List Lexeme} (hbare : restIsBare (l :: ls) = false)
    (hblanks : ∀ run, l ≠ .blanks run) (line : Nat) : ∃ t, l.token? line = some t := by
  cases l with
  | comment _ | newline => simp [restIsBare] at hbare
  | blanks run => exact absurd rfl (hblanks run)
  | quoted marker _ _ => cases marker <;> exact ⟨_, rfl⟩
  | _ => exact ⟨_, rfl⟩

theorem exists_column_of_mem_shiftAt {line : Nat} {ls : List Lexeme} {blocks : List Nat} {t : Token}
    (h : t ∈ (shiftAt line ls blocks).1) :
    ∃ column, t = indent line column ∨ t = dedent line column := by
  unfold shiftAt at h
  split at h
  · unfold shift at h
    split at h
    · exact ⟨_, .inl (List.mem_singleton.1 h)⟩
    · obtain ⟨column, -, rfl⟩ := List.mem_map.1 h
      exact ⟨column, .inr rfl⟩
  · simp at h

theorem kind_of_mem_shiftAt {line : Nat} {ls : List Lexeme} {blocks : List Nat} {t : Token}
    (h : t ∈ (shiftAt line ls blocks).1) : t.kind = .indent ∨ t.kind = .dedent := by
  obtain ⟨column, rfl | rfl⟩ := exists_column_of_mem_shiftAt h
  · exact .inl rfl
  · exact .inr rfl

/-- A token of a program ends a line, opens or closes a block, or comes from a lexeme. -/
theorem exists_of_mem_layout {line : Nat} {blocks : List Nat} {ls : List Lexeme} {t : Token}
    (h : t ∈ layout line blocks ls) :
    (∃ n, t = newline n) ∨ (∃ n column, t = indent n column ∨ t = dedent n column) ∨
      ∃ l ∈ ls, ∃ n, l.token? n = some t := by
  induction ls generalizing line blocks with
  | nil =>
      obtain ⟨column, -, rfl⟩ := List.mem_map.1 h
      exact .inr (.inl ⟨line, column, .inr rfl⟩)
  | cons l ls ih =>
      have hlater {line blocks} (ht : t ∈ layout line blocks ls) :
          (∃ n, t = newline n) ∨ (∃ n column, t = indent n column ∨ t = dedent n column) ∨
            ∃ m ∈ l :: ls, ∃ n, m.token? n = some t := by
        refine (ih ht).imp_right (.imp_right ?_)
        rintro ⟨m, hm, n, hn⟩
        exact ⟨m, List.mem_cons_of_mem l hm, n, hn⟩
      by_cases hl : l = .newline
      · subst hl
        rw [layout_newline, List.mem_cons, lineOn, List.mem_append] at h
        rcases h with rfl | hshift | hrest
        · exact .inl ⟨line, rfl⟩
        · exact .inr (.inl ⟨line + 1, exists_column_of_mem_shiftAt hshift⟩)
        · exact hlater hrest
      · rw [layout_cons hl, List.mem_append] at h
        rcases h with htoken | hrest
        · exact .inr (.inr ⟨l, List.mem_cons_self, line, Option.mem_toList.1 htoken⟩)
        · exact hlater hrest

/-- A token of a program is part of the layout or comes from a lexeme. -/
theorem mem_layout {line : Nat} {blocks : List Nat} {ls : List Lexeme} {t : Token}
    (h : t ∈ layout line blocks ls) :
    t.kind = .newline ∨ t.kind = .indent ∨ t.kind = .dedent ∨
      ∃ l ∈ ls, ∃ n, l.token? n = some t := by
  rcases exists_of_mem_layout h with ⟨n, rfl⟩ | ⟨n, column, rfl | rfl⟩ | hlexeme
  · exact .inl rfl
  · exact .inr (.inl rfl)
  · exact .inr (.inr (.inl rfl))
  · exact .inr (.inr (.inr hlexeme))

/-- Keywords and identifiers come from words, and no identifier is a keyword. -/
theorem exists_word_of_token? {l : Lexeme} {line : Nat} {t : Token} (h : l.token? line = some t)
    (ht : t.kind = .keyword ∨ t.kind = .identifier) :
    ∃ letters, l = .word letters ∧ t.text = String.ofList letters ∧
      (t.kind = .keyword ↔ letters ∈ Lexeme.keywords) := by
  cases l with
  | word letters =>
      obtain rfl := Option.some.inj h
      refine ⟨letters, rfl, rfl, ?_⟩
      by_cases hletters : letters ∈ Lexeme.keywords <;> simp [hletters]
  | comment _ | blanks _ | newline => cases h
  | quoted marker _ _ =>
      cases marker <;> (obtain rfl := Option.some.inj h; simp at ht)
  | number _ | operator _ | delimiter _ | dot | stray _ =>
      obtain rfl := Option.some.inj h
      simp at ht

theorem exists_word_of_mem_ofProgram {source : List Char} {t : Token} (h : t ∈ ofProgram source)
    (ht : t.kind = .keyword ∨ t.kind = .identifier) :
    ∃ letters, .word letters ∈ Lexeme.scan source ∧ t.text = String.ofList letters ∧
      (t.kind = .keyword ↔ letters ∈ Lexeme.keywords) := by
  rcases mem_layout h with hkind | hkind | hkind | ⟨l, hl, n, hn⟩
  · simp [hkind] at ht
  · simp [hkind] at ht
  · simp [hkind] at ht
  · obtain ⟨letters, rfl, hword⟩ := exists_word_of_token? hn ht
    exact ⟨letters, hl, hword⟩

/-! ### Blocks open on text -/

/-- The tokens start with one that is neither a line end nor a `dedent`. -/
def startsText (ts : List Token) : Bool :=
  ts.head?.any fun t => t.kind ≠ .newline && t.kind ≠ .dedent

/-- Directly after each `indent` there is a token that is neither a line end nor
a `dedent`. -/
def opensOnText : List Token → Bool
  | [] => true
  | t :: ts => (t.kind ≠ .indent || startsText ts) && opensOnText ts

theorem opensOnText_cons_of_ne {t : Token} (h : t.kind ≠ .indent) (ts : List Token) :
    opensOnText (t :: ts) = opensOnText ts := by
  simp [opensOnText, h]

theorem opensOnText_append_of_ne {ts : List Token} (h : ∀ t ∈ ts, t.kind ≠ .indent)
    (us : List Token) : opensOnText (ts ++ us) = opensOnText us := by
  induction ts with
  | nil => rfl
  | cons t ts ih =>
      obtain ⟨ht, hts⟩ := List.forall_mem_cons.1 h
      rw [List.cons_append, opensOnText_cons_of_ne ht, ih hts]

theorem opensOnText_indent {t : Token} (h : t.kind = .indent) (ts : List Token) :
    opensOnText (t :: ts) = (startsText ts && opensOnText ts) := by
  simp [opensOnText, h]

/-- What follows within the tokens is no matter. -/
theorem opensOnText_of_suffix {ts us : List Token} (h : opensOnText ts = true) (hus : us <:+ ts) :
    opensOnText us = true := by
  obtain ⟨before, rfl⟩ := hus
  induction before with
  | nil => exact h
  | cons t before ih => exact ih (Bool.and_eq_true_iff.1 h).2

/-- A part of the tokens that does not end with an `indent` has all that it opens
on. -/
theorem opensOnText_of_append {ts us : List Token} (h : opensOnText (ts ++ us) = true)
    (hlast : ∀ t ∈ ts.getLast?, t.kind ≠ .indent) : opensOnText ts = true := by
  induction ts with
  | nil => rfl
  | cons t ts ih =>
      obtain ⟨hfirst, hrest⟩ := Bool.and_eq_true_iff.1 h
      cases ts with
      | nil => simp [opensOnText, hlast t rfl]
      | cons u ts => exact Bool.and_eq_true_iff.2 ⟨hfirst, ih hrest hlast⟩

theorem token?_kind_ne_newline {l : Lexeme} {line : Nat} {t : Token} (h : l.token? line = some t) :
    t.kind ≠ .newline := by
  have hcount := countP_newline_token? l line
  rw [h] at hcount
  simpa using hcount

/-- The column of a line is zero unless the line starts with blanks and goes on
with something else. -/
theorem exists_blanks_of_column? {ls : List Lexeme} {column : Nat}
    (hcolumn : column? ls = some column) (hpos : 0 < column) :
    ∃ run ms, ls = .blanks run :: ms ∧ restIsBare ms = false := by
  match ls with
  | [] => simp [column?, restIsBare] at hcolumn
  | l :: ms =>
      cases l with
      | blanks run => exact ⟨run, ms, rfl, by simp_all [column?]⟩
      | _ => simp_all [column?, restIsBare]

/-- After blanks that do not end their line there is text, whatever the blocks. -/
theorem exists_layout_eq_cons {run : List Char} {ls : List Lexeme}
    (hchain : (.blanks run :: ls).IsChain Lexeme.Neighbours) (hbare : restIsBare ls = false)
    (line : Nat) :
    ∃ t, t.kind ≠ .newline ∧ t.kind ≠ .dedent ∧
      ∀ blocks, ∃ ts, layout line blocks (.blanks run :: ls) = t :: ts := by
  cases ls with
  | nil => cases hbare
  | cons l ls =>
      have hblanks : ∀ run', l ≠ .blanks run' := by
        rintro run' rfl
        exact (List.isChain_cons.1 hchain).1 _ rfl
      have hnewline : l ≠ .newline := by
        rintro rfl
        cases hbare
      obtain ⟨t, ht⟩ := token?_isSome hbare hblanks line
      refine ⟨t, token?_kind_ne_newline ht, (token?_kind ht).2, fun blocks => ?_⟩
      refine ⟨layout line blocks ls, ?_⟩
      rw [layout_cons (by simp), layout_cons hnewline, ht]
      rfl

theorem startsText_layout {ls : List Lexeme} (hchain : ls.IsChain Lexeme.Neighbours) {column : Nat}
    (hcolumn : column? ls = some column) (hpos : 0 < column) (line : Nat) (blocks : List Nat) :
    startsText (layout line blocks ls) = true := by
  obtain ⟨run, ms, rfl, hbare⟩ := exists_blanks_of_column? hcolumn hpos
  obtain ⟨t, hnewline, hdedent, hlayout⟩ := exists_layout_eq_cons hchain hbare line
  obtain ⟨ts, hts⟩ := hlayout blocks
  simp [hts, startsText, hnewline, hdedent]

theorem opensOnText_lineOn {ls : List Lexeme} (hchain : ls.IsChain Lexeme.Neighbours) {line : Nat}
    (h : ∀ blocks, opensOnText (layout line blocks ls) = true) (blocks : List Nat) :
    opensOnText (lineOn line blocks ls) = true := by
  unfold lineOn shiftAt
  cases hcolumn : column? ls with
  | none => exact h blocks
  | some column =>
      simp only [shift]
      split
      · rename_i hdeeper
        rw [List.singleton_append, opensOnText_indent rfl,
          startsText_layout hchain hcolumn (Nat.zero_lt_of_lt hdeeper), h, Bool.and_self]
      · rw [opensOnText_append_of_ne (by simp [dedent])]
        exact h _

theorem opensOnText_layout {ls : List Lexeme} (hchain : ls.IsChain Lexeme.Neighbours) (line : Nat)
    (blocks : List Nat) : opensOnText (layout line blocks ls) = true := by
  induction ls generalizing line blocks with
  | nil =>
      have hdedents : ∀ t ∈ blocks.map (dedent line), t.kind ≠ .indent := by simp [dedent]
      rw [layout, ← List.append_nil (blocks.map _), opensOnText_append_of_ne hdedents]
      rfl
  | cons l ls ih =>
      have hrest := ih (List.isChain_cons.1 hchain).2
      by_cases hl : l = .newline
      · subst hl
        rw [layout_newline, opensOnText_cons_of_ne (by simp [newline])]
        exact opensOnText_lineOn (List.isChain_cons.1 hchain).2 (hrest (line + 1)) blocks
      · rw [layout_cons hl, opensOnText_append_of_ne]
        · exact hrest line blocks
        · intro t ht
          exact (token?_kind (Option.mem_toList.1 ht)).1

/-- In the tokens of a program, each `indent` comes directly before a token of
its line. -/
theorem opensOnText_ofProgram (source : List Char) : opensOnText (ofProgram source) = true :=
  opensOnText_layout (Lexeme.isChain_scan source) 1 []

end Token

end Offside
