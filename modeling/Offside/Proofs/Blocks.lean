import Offside.Proofs.Layout

/-!
# Offside.Proofs.Blocks

The `indent` and `dedent` tokens of a program are **well nested**. Main
statement: `openIndents_ofProgram`.

`openIndents` reads a stream of tokens with a stack of the `indent` tokens that
are still open; it fails at a `dedent` that does not close the innermost of them
or has another text. The layout works with a stack of its own, of columns. That
the two go together is `Nests`: what the layout writes for a line, and in the end
for the whole source, takes the one stack to the other, and a column that comes
on top is greater than the one below it.
-/

namespace Offside.Token

/-! ### Open indents -/

/-- The `indent` tokens that are open after a token, innermost first, or `none`
if the token is a `dedent` that does not close the innermost one. -/
def openStep (opened : List Token) (t : Token) : Option (List Token) :=
  if t.kind = .indent then some (t :: opened)
  else if t.kind = .dedent then
    match opened with
    | [] => none
    | i :: outer => if i.text = t.text then some outer else none
  else some opened

/-- The `indent` tokens that are open after tokens, innermost first. -/
def openIndents (ts : List Token) : Option (List Token) := ts.foldlM openStep []

/-- How many of the tokens are of a kind. -/
def countKind (kind : TokenKind) (ts : List Token) : Nat := ts.countP (·.kind = kind)

theorem countKind_append (kind : TokenKind) (ts us : List Token) :
    countKind kind (ts ++ us) = countKind kind ts + countKind kind us :=
  List.countP_append

/-- One token opens a block or closes one, or leaves their number as it is. -/
theorem length_openStep {opened after : List Token} {t : Token}
    (h : openStep opened t = some after) :
    after.length + countKind .dedent [t] = opened.length + countKind .indent [t] := by
  unfold openStep at h
  split at h
  · rename_i hkind
    obtain rfl := Option.some.inj h
    simp [countKind, hkind]
  · rename_i hindent
    split at h
    · rename_i hkind
      split at h
      · simp at h
      · split at h
        · obtain rfl := Option.some.inj h
          simp [countKind, hkind]
        · simp at h
    · rename_i hdedent
      obtain rfl := Option.some.inj h
      simp [countKind, hindent, hdedent]

/-- The open `indent` tokens are those that no `dedent` has closed. -/
theorem length_foldlM_openStep {opened after ts : List Token}
    (h : ts.foldlM openStep opened = some after) :
    after.length + countKind .dedent ts = opened.length + countKind .indent ts := by
  induction ts generalizing opened with
  | nil =>
      obtain rfl : opened = after := by simpa using h
      rfl
  | cons t ts ih =>
      rw [List.foldlM_cons, Option.bind_eq_bind, Option.bind_eq_some_iff] at h
      obtain ⟨middle, hstep, hrest⟩ := h
      have hfirst := length_openStep hstep
      have hlater := ih hrest
      have hcount (kind : TokenKind) :
          countKind kind (t :: ts) = countKind kind [t] + countKind kind ts :=
        countKind_append kind [t] ts
      rw [hcount, hcount]
      omega

/-- A `dedent` closes the innermost block if the columns agree. -/
theorem openStep_dedent {line column : Nat} {innermost : Token} {outer : List Token}
    (h : innermost.text = toString column) :
    openStep (innermost :: outer) (dedent line column) = some outer := by
  simp [openStep, dedent, h]

theorem openStep_of_ne {t : Token} {opened : List Token} (hindent : t.kind ≠ .indent)
    (hdedent : t.kind ≠ .dedent) : openStep opened t = some opened := by
  simp [openStep, hindent, hdedent]

/-! ### The columns of the open indents

`Nests` follows the columns of the open blocks through the tokens. It is what one line
keeps and what the whole layout keeps.
-/

/-- Columns, innermost first, that are positive and strictly increase to the
inside. -/
structure Ascends (columns : List Nat) : Prop where
  pairwise : columns.Pairwise (· > ·)
  pos : ∀ column ∈ columns, 0 < column

theorem Ascends.tail {column : Nat} {columns : List Nat} (h : Ascends (column :: columns)) :
    Ascends columns :=
  ⟨h.pairwise.tail, fun c hc => h.pos c (List.mem_cons_of_mem column hc)⟩

/-- A block opens deeper than all those around it. -/
theorem Ascends.cons {column : Nat} {columns : List Nat} (h : Ascends columns)
    (hlt : columns.headD 0 < column) : Ascends (column :: columns) := by
  have hbelow : ∀ c ∈ columns, c < column := by
    intro c hc
    cases columns with
    | nil => simp at hc
    | cons head rest =>
        rcases List.mem_cons.1 hc with rfl | hrest
        · exact hlt
        · exact Nat.lt_trans (List.rel_of_pairwise_cons h.pairwise hrest) hlt
  refine ⟨List.pairwise_cons.2 ⟨hbelow, h.pairwise⟩, fun c hc => ?_⟩
  rcases List.mem_cons.1 hc with rfl | hrest
  · exact Nat.zero_lt_of_lt hlt
  · exact h.pos c hrest

/-- Tokens take the open columns `before`, innermost first, to `after`. A column
that comes on top is greater than the one below it, and than zero. -/
inductive Nests : List Nat → List Token → List Nat → Prop where
  | done (columns : List Nat) : Nests columns [] columns
  | opens {line column : Nat} {before after : List Nat} {ts : List Token} :
      before.headD 0 < column → Nests (column :: before) ts after →
      Nests before (indent line column :: ts) after
  | closes {line column : Nat} {before after : List Nat} {ts : List Token} :
      Nests before ts after → Nests (column :: before) (dedent line column :: ts) after
  | inside {t : Token} {before after : List Nat} {ts : List Token} :
      t.kind ≠ .indent → t.kind ≠ .dedent → Nests before ts after → Nests before (t :: ts) after

namespace Nests

variable {before middle after : List Nat} {ts us : List Token}

/-- What one part leaves open is what the next one starts with. -/
theorem append (h : Nests before ts middle) (h' : Nests middle us after) :
    Nests before (ts ++ us) after := by
  induction h with
  | done => exact h'
  | opens hlt _ ih => exact .opens hlt (ih h')
  | closes _ ih => exact .closes (ih h')
  | inside hindent hdedent _ ih => exact .inside hindent hdedent (ih h')

theorem of_layoutless (h : ∀ t ∈ ts, t.kind ≠ .indent ∧ t.kind ≠ .dedent) :
    Nests before ts before := by
  induction ts with
  | nil => exact .done before
  | cons t ts ih =>
      obtain ⟨hindent, hdedent⟩ := h t List.mem_cons_self
      exact .inside hindent hdedent (ih fun u hu => h u (List.mem_cons_of_mem t hu))

/-! What the first token says about the columns. -/

/-- An `indent` opens a block at its column. -/
theorem of_indent {t : Token} (h : Nests before (t :: ts) after) (ht : t.kind = .indent) :
    ∃ line column, t = indent line column ∧ Nests (column :: before) ts after := by
  cases h with
  | opens _ hrest => exact ⟨_, _, rfl, hrest⟩
  | closes _ => cases ht
  | inside hindent => exact absurd ht hindent

/-- A `dedent` closes a block that is open, at its column. -/
theorem of_dedent {t : Token} (h : Nests before (t :: ts) after) (ht : t.kind = .dedent) :
    ∃ line column outer, before = column :: outer ∧ t = dedent line column ∧
      Nests outer ts after := by
  cases h with
  | opens _ _ => cases ht
  | closes hrest => exact ⟨_, _, _, rfl, rfl, hrest⟩
  | inside _ hdedent => exact absurd ht hdedent

theorem of_inside {t : Token} (h : Nests before (t :: ts) after) (hindent : t.kind ≠ .indent)
    (hdedent : t.kind ≠ .dedent) : Nests before ts after := by
  cases h with
  | opens _ _ => exact absurd rfl hindent
  | closes _ => exact absurd rfl hdedent
  | inside _ _ hrest => exact hrest

/-- At every place among the tokens some blocks are open. -/
theorem exists_of_prefix (h : Nests before ts after) (hus : us <+: ts) :
    ∃ middle, Nests before us middle := by
  induction h generalizing us with
  | done =>
      obtain rfl := List.prefix_nil.1 hus
      exact ⟨_, .done _⟩
  | opens hlt _ ih =>
      obtain rfl | ⟨rest, rfl, hrest⟩ := List.prefix_cons_iff.1 hus
      · exact ⟨_, .done _⟩
      · obtain ⟨middle, hmiddle⟩ := ih hrest
        exact ⟨middle, .opens hlt hmiddle⟩
  | closes _ ih =>
      obtain rfl | ⟨rest, rfl, hrest⟩ := List.prefix_cons_iff.1 hus
      · exact ⟨_, .done _⟩
      · obtain ⟨middle, hmiddle⟩ := ih hrest
        exact ⟨middle, .closes hmiddle⟩
  | inside hindent hdedent _ ih =>
      obtain rfl | ⟨rest, rfl, hrest⟩ := List.prefix_cons_iff.1 hus
      · exact ⟨_, .done _⟩
      · obtain ⟨middle, hmiddle⟩ := ih hrest
        exact ⟨middle, .inside hindent hdedent hmiddle⟩

/-- Columns stay positive and strictly decreasing to the outside. -/
theorem ascends (h : Nests before ts after) (hbefore : Ascends before) : Ascends after := by
  induction h with
  | done => exact hbefore
  | opens hlt _ ih => exact ih (hbefore.cons hlt)
  | closes _ ih => exact ih hbefore.tail
  | inside _ _ _ ih => exact ih hbefore

/-- The open `indent` tokens carry the open columns. -/
theorem foldlM_openStep (h : Nests before ts after) (opened : List Token)
    (hopened : opened.map (·.text) = before.map toString) :
    ∃ opened', ts.foldlM openStep opened = some opened' ∧
      opened'.map (·.text) = after.map toString := by
  induction h generalizing opened with
  | done => exact ⟨opened, rfl, hopened⟩
  | opens _ _ ih =>
      exact ih (indent _ _ :: opened) (by simp [indent, hopened])
  | closes _ ih =>
      -- The innermost open token has the text of the column that is closed.
      obtain ⟨innermost, outer, rfl, htext, houter⟩ := List.map_eq_cons_iff.1 hopened
      obtain ⟨opened', hrun, htexts⟩ := ih outer houter
      refine ⟨opened', ?_, htexts⟩
      rw [List.foldlM_cons, openStep_dedent htext]
      exact hrun
  | inside hindent hdedent _ ih =>
      obtain ⟨opened', hrun, htexts⟩ := ih opened hopened
      refine ⟨opened', ?_, htexts⟩
      rw [List.foldlM_cons, openStep_of_ne hindent hdedent]
      exact hrun

end Nests

/-! ### What the layout writes

One step of the layout, and all of it by induction on the lexemes.
-/

/-- At the end all blocks are closed, from the innermost on. -/
theorem nests_map_dedent (line : Nat) (blocks : List Nat) :
    Nests blocks (blocks.map (dedent line)) [] := by
  induction blocks with
  | nil => exact .done []
  | cons column outer ih => exact .closes ih

theorem nests_takeWhile (line : Nat) (p : Nat → Bool) (blocks : List Nat) :
    Nests blocks ((blocks.takeWhile p).map (dedent line)) (blocks.dropWhile p) := by
  induction blocks with
  | nil => exact .done []
  | cons column outer ih =>
      by_cases hp : p column
      · rw [List.takeWhile_cons_of_pos hp, List.dropWhile_cons_of_pos hp]
        exact .closes ih
      · rw [List.takeWhile_cons_of_neg hp, List.dropWhile_cons_of_neg hp]
        exact .done _

/-- **A line opens one block, closes some or does neither.** -/
theorem nests_shiftAt (line : Nat) (ls : List Lexeme) (blocks : List Nat) :
    Nests blocks (shiftAt line ls blocks).1 (shiftAt line ls blocks).2 := by
  unfold shiftAt
  split
  · unfold shift
    split
    · rename_i hdeeper
      exact .opens hdeeper (.done _)
    · exact nests_takeWhile line _ blocks
  · exact .done blocks

/-- Lexemes open and close no blocks; only the layout does. -/
theorem token?_kind {l : Lexeme} {line : Nat} {t : Token} (h : l.token? line = some t) :
    t.kind ≠ .indent ∧ t.kind ≠ .dedent := by
  cases l with
  | comment _ | blanks _ | newline => simp [Lexeme.token?] at h
  | quoted marker _ _ =>
      cases marker <;> (obtain rfl := Option.some.inj h; simp)
  | word letters =>
      obtain rfl := Option.some.inj h
      simp only
      split <;> simp
  | number _ | operator _ | delimiter _ | dot | stray _ =>
      obtain rfl := Option.some.inj h
      simp

theorem nests_openLayout (line : Nat) (blocks : List Nat) (ls : List Lexeme) :
    Nests blocks (openLayout line blocks ls).1 (openLayout line blocks ls).2 := by
  induction ls generalizing line blocks with
  | nil => exact .done blocks
  | cons l ls ih =>
      by_cases hl : l = .newline
      · subst hl
        rw [openLayout_newline]
        exact .inside (by simp [newline]) (by simp [newline])
          ((nests_shiftAt (line + 1) ls blocks).append (ih _ _))
      · rw [openLayout_cons hl]
        refine (Nests.of_layoutless fun t ht => ?_).append (ih line blocks)
        exact token?_kind (Option.mem_toList.1 ht)

/-- The layout closes all blocks, those that it opens and those that are open. -/
theorem nests_layout (line : Nat) (blocks : List Nat) (ls : List Lexeme) :
    Nests blocks (layout line blocks ls) [] := by
  rw [layout_eq]
  exact (nests_openLayout line blocks ls).append (nests_map_dedent _ _)

/-- In the tokens of every source, each `dedent` closes the innermost open
`indent` and has its text, the columns of the open `indent` tokens are positive
and strictly increase to the inside, no beginning has more `dedent` tokens than
`indent` tokens, and at the end none is open. -/
theorem openIndents_ofProgram (source : List Char) :
    (∀ ts, ts <+: ofProgram source →
      ∃ opened columns, openIndents ts = some opened ∧
        opened.map (·.text) = columns.map toString ∧ Ascends columns ∧
        countKind .dedent ts ≤ countKind .indent ts) ∧
    openIndents (ofProgram source) = some [] := by
  have hall : Nests [] (ofProgram source) [] := nests_layout 1 [] (Lexeme.scan source)
  refine ⟨fun ts hts => ?_, ?_⟩
  · obtain ⟨columns, hcolumns⟩ := hall.exists_of_prefix hts
    obtain ⟨opened, hrun, htexts⟩ := hcolumns.foldlM_openStep [] rfl
    have hlength := length_foldlM_openStep hrun
    refine ⟨opened, columns, hrun, htexts, hcolumns.ascends ⟨.nil, by simp⟩, ?_⟩
    rw [List.length_nil] at hlength
    omega
  · obtain ⟨opened, hrun, htexts⟩ := hall.foldlM_openStep [] rfl
    rw [openIndents, hrun, List.map_eq_nil_iff.1 htexts]

end Offside.Token
