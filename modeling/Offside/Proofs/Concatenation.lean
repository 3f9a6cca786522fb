import Mathlib.Data.List.TakeWhile
import Offside.Proofs.BlankLines
import Offside.Proofs.Bodies
import Offside.Proofs.Derivation.Sequence
import Offside.Proofs.Writing
import Offside.Proofs.Yield
import Offside.Transpile

/-!
# Offside.Proofs.Concatenation

A source and **another one on the lines after it**. The blocks that are open at
the end of the first have to be closed before the second: the first line with
text on it does this, from column zero, and the lines without text before it
become part of the innermost block. Main statement: `parse_append_line`.

There is one exception. A line with a carriage return in front of its text takes
no part in the layout. If the text of the second source starts on such a line,
it goes into a block that is still open (`Nested.not_append_inside`).
-/

namespace Offside

namespace Token

/-! ### The first line with text -/

/-- The first line with text on it has a column. -/
def startsInColumn : List Lexeme → Bool
  | .newline :: ls | .comment _ :: ls => startsInColumn ls
  | .blanks run :: ls => if restIsBare ls then startsInColumn ls else !run.contains '\r'
  | _ => true

/-- After a comment, nothing is left of its line. -/
theorem restIsBare_of_comment {text : List Char} {ls : List Lexeme}
    (hchain : (.comment text :: ls).IsChain Lexeme.Neighbours) : restIsBare ls = true := by
  cases ls with
  | nil => rfl
  | cons l ls =>
      obtain rfl : l = .newline := (List.isChain_cons.1 hchain).1 l rfl
      rfl

theorem column?_of_restIsBare {ls : List Lexeme} (h : restIsBare ls = true) :
    column? ls = none := by
  match ls with
  | [] => rfl
  | l :: ls => cases l <;> simp_all [column?, restIsBare]

theorem startsInColumn_of_column? {ls : List Lexeme} {column : Nat}
    (h : column? ls = some column) : startsInColumn ls = true := by
  match ls with
  | [] => rfl
  | l :: ls =>
      cases l with
      | blanks run =>
          rw [column?] at h
          split at h
          · cases h
          · rename_i hcolumn
            rw [not_or] at hcolumn
            rw [startsInColumn, if_neg hcolumn.2]
            simpa using hcolumn.1
      | newline | comment _ => cases h
      | _ => rfl

theorem lineOn_of_column?_eq_none {ls : List Lexeme} (h : column? ls = none) (line : Nat)
    (blocks : List Nat) : lineOn line blocks ls = layout line blocks ls := by
  rw [lineOn, shiftAt, h]
  rfl

/-- At column zero, all blocks are closed. -/
theorem lineOn_of_column?_eq_zero {ls : List Lexeme} (h : column? ls = some 0) (line : Nat)
    {blocks : List Nat} (hblocks : ∀ column ∈ blocks, 0 < column) :
    lineOn line blocks ls = blocks.map (dedent line) ++ layout line [] ls := by
  have hdeeper : ∀ column ∈ blocks, decide (0 < column) = true := by simpa using hblocks
  have htake := List.takeWhile_eq_self_iff.2 hdeeper
  have hdrop := List.dropWhile_eq_nil_iff.2 hdeeper
  rw [lineOn, shiftAt, h]
  simp only [shift, Nat.not_lt_zero, if_false, htake, hdrop]

/-- Blanks and comments at the end of a line can be left out. -/
theorem lineOn_cons_of_bare {l : Lexeme} {ls : List Lexeme} (hcolumn : column? (l :: ls) = none)
    (hl : ∀ n, l.token? n = none) (hnewline : l ≠ .newline) (hbare : restIsBare ls = true)
    (line : Nat) (blocks : List Nat) : lineOn line blocks (l :: ls) = lineOn line blocks ls := by
  rw [lineOn_of_column?_eq_none hcolumn, layout_cons hnewline, hl,
    lineOn_of_column?_eq_none (column?_of_restIsBare hbare)]
  rfl

theorem lineOn_newline (line : Nat) (blocks : List Nat) (ls : List Lexeme) :
    lineOn line blocks (.newline :: ls) = newline line :: lineOn (line + 1) blocks ls := by
  rw [lineOn_of_column?_eq_none rfl, layout_newline]

/-! ### Tokens that count -/

theorem essential_append_of_isLayout {ts : List Token} (h : ∀ t ∈ ts, t.kind.isLayout = true)
    (us : List Token) : essential (ts ++ us) = essential us := by
  induction ts with
  | nil => rfl
  | cons t ts ih =>
      obtain ⟨ht, hts⟩ := List.forall_mem_cons.1 h
      rw [List.cons_append, essential, isPassed, ht]
      exact ih hts

/-- The layout between two tokens keeps them apart. -/
theorem essential_append_cons {t : Token} (ht : t.kind.isLayout = true) (ts us : List Token) :
    essential (ts ++ t :: us) = essential ts ++ essential us := by
  have hbracket : t.is .delimiter "]" = false := by
    rw [Bool.eq_false_iff]
    intro his
    rw [(is_iff.1 his).1] at ht
    cases ht
  induction ts with
  | nil => exact essential_append_of_isLayout (List.forall_mem_singleton.2 ht) us
  | cons u ts ih =>
      have hpassed : u.isPassed (ts ++ t :: us) = u.isPassed ts := by
        cases ts with
        | nil => simp [isPassed, hbracket]
        | cons _ _ => rfl
      rw [List.cons_append, essential, essential, hpassed, ih]
      split <;> rfl

theorem essential_append_map_dedent (ts : List Token) (n : Nat) (columns : List Nat) :
    essential (ts ++ columns.map (dedent n)) = essential ts := by
  cases columns with
  | nil => rw [List.map_nil, List.append_nil]
  | cons column columns =>
      have hdedents : essential (columns.map (dedent n) ++ []) = [] :=
        essential_append_of_isLayout (by simp [dedent]) []
      rw [List.append_nil] at hdedents
      rw [List.map_cons, essential_append_cons rfl, hdedents, List.append_nil]

end Token

namespace Grammar

open Token

variable {r : Reader} {ss ss' : List Stmt} {blocks : List Nat} {ts us : List Token}

/-! ### Where blocks are open -/

/-- The tokens `ts` of a body, and those of the same lines where the `blocks` are
open. After line ends all blocks are closed, or there is text inside them. -/
inductive Meets (blocks : List Nat) : Bool → List Token → List Token → Prop where
  | newline {t : Token} {closes : Bool} {ts us : List Token} :
      t.kind = .newline → Meets blocks closes ts us → Meets blocks closes (t :: ts) (t :: us)
  | closed (n : Nat) (ts : List Token) : Meets blocks true ts (blocks.map (dedent n) ++ ts)
  | inside {t : Token} (ts us : List Token) :
      startsStatement t = true → Meets blocks false (t :: ts) (t :: us)

theorem Nested.meets_inside {run : List Char} {ls : List Lexeme} {line : Nat}
    (h : Nested r (.body ss) (layout line [] (.blanks run :: ls)))
    (hchain : (.blanks run :: ls).IsChain Lexeme.Neighbours) (hbare : restIsBare ls = false) :
    Meets blocks false (layout line [] (.blanks run :: ls))
      (layout line blocks (.blanks run :: ls)) := by
  obtain ⟨t, hkind, -, hlayout⟩ := exists_layout_eq_cons hchain hbare line
  obtain ⟨ts, htop⟩ := hlayout []
  obtain ⟨us, hinside⟩ := hlayout blocks
  rw [htop] at h ⊢
  rw [hinside]
  exact .inside ts us (h.head.resolve_left fun hnewline => hkind hnewline.1)

theorem Nested.meets {ls : List Lexeme} {line : Nat} (h : Nested r (.body ss) (lineOn line [] ls))
    (hchain : ls.IsChain Lexeme.Neighbours) (hblocks : ∀ column ∈ blocks, 0 < column) :
    Meets blocks (startsInColumn ls) (lineOn line [] ls) (lineOn line blocks ls) := by
  induction ls generalizing line with
  | nil =>
      have hclosed : Meets blocks true [] _ := .closed line []
      rwa [List.append_nil] at hclosed
  | cons l ls ih =>
      have hrest := (List.isChain_cons.1 hchain).2
      cases hcolumn : column? (l :: ls) with
      | some column =>
          cases column with
          | zero =>
              rw [startsInColumn_of_column? hcolumn, lineOn_of_column?_eq_zero hcolumn line hblocks,
                lineOn_of_column?_eq_zero hcolumn line (by simp)]
              exact .closed line _
          | succ column =>
              -- No body starts with an `indent`.
              rw [lineOn, shiftAt, hcolumn] at h
              rcases h.head with ⟨hkind, -⟩ | hstart
              · cases hkind
              · cases hstart
      | none =>
          cases l with
          | newline =>
              rw [lineOn_newline] at h
              rw [lineOn_newline, lineOn_newline]
              exact .newline rfl (ih (h.of_newline rfl) hrest)
          | comment text =>
              have hbare := restIsBare_of_comment hchain
              have hline := lineOn_cons_of_bare hcolumn (fun _ => rfl) (by simp) hbare line
              rw [hline] at h
              rw [hline, hline, startsInColumn]
              exact ih h hrest
          | blanks run =>
              by_cases hbare : restIsBare ls = true
              · have hline := lineOn_cons_of_bare hcolumn (fun _ => rfl) (by simp) hbare line
                rw [hline] at h
                rw [hline, hline, startsInColumn, if_pos hbare]
                exact ih h hrest
              · -- A carriage return keeps the line out of the layout.
                rw [Bool.not_eq_true] at hbare
                have hreturn : startsInColumn (.blanks run :: ls) = false := by
                  simpa [column?, startsInColumn, hbare] using hcolumn
                have hline := lineOn_of_column?_eq_none hcolumn line
                rw [hline] at h
                rw [hreturn, hline, hline]
                exact h.meets_inside hchain hbare
          | _ => cases hcolumn

/-! ### A body after another -/

theorem padded_map_dedent (n m : Nat) (columns : List Nat) :
    Padded (columns.map (dedent n)) (columns.map (dedent m)) := by
  induction columns with
  | nil => exact .nil
  | cons column columns ih => exact @Padded.dedent _ _ [] _ _ rfl (by simp) rfl rfl ih

/-- The blocks of a body may be closed after line ends, and another body may
follow. -/
theorem Nested.append_closed {front newlines : List Token} {n : Nat}
    (h : Nested r (.body ss) (front ++ blocks.map (dedent n)))
    (hnewlines : ∀ t ∈ newlines, t.kind = .newline) (hne : newlines ≠ [])
    (hts : Nested r (.body ss') ts) (m : Nat) :
    Nested r (.body (ss ++ ss')) (front ++ (newlines ++ (blocks.map (dedent m) ++ ts))) := by
  cases hblocks : blocks with
  | nil =>
      -- There is no block to close, and the line ends belong to the second body.
      have hsecond : Nested r (.body ss') (newlines ++ ts) :=
        Nested.append (.newlines hnewlines) hts (.of_isLayout (isLayout_of_newlines hnewlines))
      have hends : EndsLine (newlines ++ ts) := by
        obtain ⟨t, newlines, rfl⟩ := List.exists_cons_of_ne_nil hne
        have hfirst : EndsLine (t :: newlines) := .of_newlines hnewlines
        exact hfirst
      rw [hblocks, List.map_nil, List.append_nil] at h
      exact h.append hsecond fun _ _ => .inr hends
  | cons column columns =>
      rw [hblocks] at h
      have hpadded : Padded ((column :: columns).map (dedent n))
          (newlines ++ (column :: columns).map (dedent m)) :=
        .dedent rfl hnewlines rfl rfl (padded_map_dedent n m columns)
      have hfirst := h.padded (hpadded.append_left front)
      have hover : LineIsOver ((column :: columns).map (dedent m)) ts :=
        .of_isLayout (by simp [dedent])
      have hboth := hfirst.append hts ((hover.append_left (by simp) newlines).append_left
        (by simp) front)
      simpa using hboth

/-- Where the lines of the second body close the open blocks, it follows the
first. -/
theorem Nested.append_meets {front newlines : List Token} {n : Nat}
    (h : Nested r (.body ss) (front ++ blocks.map (dedent n)))
    (hnewlines : ∀ t ∈ newlines, t.kind = .newline) (hne : newlines ≠ [])
    (hts : Nested r (.body ss') ts) (hmeets : Meets blocks true ts us) :
    Nested r (.body (ss ++ ss')) (front ++ (newlines ++ us)) := by
  generalize hcloses : true = closes at hmeets
  induction hmeets generalizing newlines with
  | newline ht _ ih =>
      have hmore := List.forall_mem_append.2 ⟨hnewlines, List.forall_mem_singleton.2 ht⟩
      simpa using ih hmore (by simp) (hts.of_newline ht) hcloses
  | closed m ts => exact h.append_closed hnewlines hne hts m
  | inside => cases hcloses

/-! ### Text inside a block that is still open -/

theorem Meets.exists_inside (h : Meets blocks false ts us) :
    ∃ newlines t vs, us = newlines ++ t :: vs ∧ (∀ n ∈ newlines, n.kind = .newline) ∧
      startsStatement t = true := by
  generalize hcloses : false = closes at h
  induction h with
  | newline ht _ ih =>
      obtain ⟨newlines, t, vs, rfl, hnewlines, hstart⟩ := ih hcloses
      exact ⟨_ :: newlines, t, vs, rfl, List.forall_mem_cons.2 ⟨ht, hnewlines⟩, hstart⟩
  | closed => cases hcloses
  | @inside t _ us hstart => exact ⟨[], t, us, rfl, by simp, hstart⟩

theorem Nested.exists_opensAll (h : Nested Program.fstringReader (.body ss) ts) :
    ∃ ctx, OpensAll ctx (Stmt.blockBodies ss) ts := by
  have hctx : Nested (Cursor.ofTokens ts).context.fstring (.body ss) ts := h
  exact ⟨_, hctx.opensAll⟩

/-- A body has a `dedent` for each of its bodies. -/
theorem Nested.countKind_dedent (h : Nested Program.fstringReader (.body ss) ts) :
    countKind .dedent ts = (Stmt.blockBodies ss).length := by
  obtain ⟨ctx, hopens⟩ := h.exists_opensAll
  obtain ⟨starts, hstarts, hbodies⟩ := hopens.starts []
  simp only [List.append_nil, blockStarts] at hstarts
  have hbalance := length_foldlM_openStep (hopens.balanced [])
  rw [List.length_nil, Nat.zero_add, Nat.zero_add] at hbalance
  rw [hbalance, ← length_blockStarts, hstarts, hbodies.length_eq]

/-- The same body does not end before the `dedent` tokens of its blocks. -/
theorem Nested.covers_front {front gap rest first : List Token} {n : Nat}
    (h : Nested Program.fstringReader (.body ss) (front ++ blocks.map (dedent n)))
    (hfirst : Nested Program.fstringReader (.body ss) first) (hblocks : blocks ≠ [])
    (hgap : countKind .dedent gap = 0) (hstart : first <+: front ++ gap ++ rest) :
    front ++ gap <+: first := by
  rcases List.prefix_or_prefix_of_prefix hstart (List.prefix_append _ rest) with hshort | hlong
  · have hcount : countKind .dedent first ≤ countKind .dedent (front ++ gap) :=
      hshort.sublist.countP_le
    have hclosed := h.countKind_dedent
    have hdedents : countKind .dedent (blocks.map (dedent n)) = blocks.length := by
      simp [countKind, List.countP_map, dedent]
    rw [countKind_append, hgap, hfirst.countKind_dedent] at hcount
    rw [countKind_append, hdedents] at hclosed
    have hlength := List.length_pos_iff.2 hblocks
    omega
  · exact hlong

/-- No body ends with the start of a block. -/
theorem Nested.getLast?_kind (h : Nested Program.fstringReader (.body ss) ts) :
    ∀ t ∈ ts.getLast?, t.kind ≠ .indent := by
  intro t ht hkind
  obtain ⟨ctx, hopens⟩ := h.exists_opensAll
  have hbalanced := hopens.balanced []
  obtain ⟨front, rfl⟩ := List.getLast?_eq_some_iff.1 ht
  rw [List.foldlM_append, Option.bind_eq_bind, Option.bind_eq_some_iff] at hbalanced
  obtain ⟨opened, -, hstep⟩ := hbalanced
  simp [openStep, hkind] at hstep

theorem isPassed_of_startsStatement {t : Token} (h : startsStatement t = true)
    (after : List Token) : t.isPassed after = false := by
  obtain ⟨kind, text, line⟩ := t
  cases kind with
  | newline | indent | dedent =>
      simp [startsStatement, startsSimple, startsExpression, startsAtom, unaryOp?, Token.is] at h
  | delimiter =>
      have htext : text = "(" ∨ text = "[" := by
        simpa [startsStatement, startsSimple, startsExpression, startsAtom, unaryOp?, Token.is]
          using h
      rcases htext with rfl | rfl <;> simp [isPassed, Token.is]
  | _ => simp [isPassed, Token.is]

theorem Nested.length_essential (h : Nested Program.fstringReader (.body ss) ts)
    (hts : Readable ts) : (essential ts).length = (Stmt.yieldBlock ss).length := by
  have hparse : Program.ofTokens ts = .ok ⟨ss⟩ := Program.ofTokens_eq_ok_iff.2 h.takenBefore.1
  exact (Program.spells_yield hts hparse).length_eq

/-- Text inside a block of the first body does not belong to a second body after
it. -/
theorem Nested.not_append_inside {front : List Token} {newline : Token} {n : Nat}
    (h : Nested Program.fstringReader (.body ss) (front ++ blocks.map (dedent n)))
    (hfront : Readable (front ++ blocks.map (dedent n))) (hblocks : blocks ≠ [])
    (hnewline : newline.kind = .newline) (hmeets : Meets blocks false ts us)
    (hall : Readable (front ++ newline :: us)) :
    ¬ Nested Program.fstringReader (.body (ss ++ ss')) (front ++ newline :: us) := by
  intro hboth
  obtain ⟨newlines, t, vs, rfl, hnewlines, hstart⟩ := hmeets.exists_inside
  obtain ⟨first, second, heq, hfirst, -⟩ := hboth.split
  have hsplit : front ++ newline :: (newlines ++ [t]) ++ vs = first ++ second := by simpa using heq
  have hgap : countKind .dedent (newline :: (newlines ++ [t])) = 0 := by
    rw [countKind, List.countP_eq_zero]
    intro u hu
    have hkind : u.kind ≠ .dedent := by
      rcases List.mem_cons.1 hu with rfl | hu
      · simp [hnewline]
      · rcases List.mem_append.1 hu with hu | hu
        · simp [hnewlines u hu]
        · rw [List.mem_singleton.1 hu]
          exact kind_ne_dedent hstart
    simpa using hkind
  obtain ⟨more, rfl⟩ := h.covers_front hfirst hblocks hgap ⟨second, hsplit.symm⟩
  -- The first body would have the text in the block and all that it has on its own.
  rw [heq] at hall
  have hlength := hfirst.length_essential
    ⟨opensOnText_of_append hall.opens hfirst.getLast?_kind, hall.of_append.1⟩
  rw [← h.length_essential hfront, essential_append_map_dedent] at hlength
  have hinside : essential (front ++ newline :: (newlines ++ [t]) ++ more) =
      essential front ++ t :: essential more := by
    rw [List.append_assoc, List.cons_append, essential_append_cons (by simp [hnewline]),
      List.append_assoc, essential_append_of_isLayout (isLayout_of_newlines hnewlines),
      List.singleton_append, essential, isPassed_of_startsStatement hstart]
    rfl
  rw [hinside, List.length_append, List.length_cons] at hlength
  omega

end Grammar

/-! ### Sources -/

namespace Token

/-- The tokens of a source, less those that close the blocks at its end. -/
def openTokens (source : List Char) : List Token := (openLayout 1 [] (Lexeme.scan source)).1

/-- The blocks that are open at the end of a source, innermost first. -/
def openBlocks (source : List Char) : List Nat := (openLayout 1 [] (Lexeme.scan source)).2

theorem pos_of_mem_openBlocks (source : List Char) : ∀ column ∈ openBlocks source, 0 < column :=
  ((nests_openLayout 1 [] (Lexeme.scan source)).ascends ⟨.nil, by simp⟩).pos

theorem ofProgram_eq (source : List Char) :
    ofProgram source =
      openTokens source ++ (openBlocks source).map (dedent (1 + source.count '\n')) := by
  rw [ofProgram, layout_eq, Lexeme.count_newline_scan]
  rfl

/-- The tokens of a source and another one on the lines after it. -/
theorem ofProgram_append_line (a b : List Char) :
    ofProgram (a ++ '\n' :: b) =
      openTokens a ++ newline (1 + a.count '\n') ::
        lineOn (1 + (a.count '\n' + 1)) (openBlocks a) (Lexeme.scan b) := by
  rw [ofProgram, Lexeme.scan_append_newline, layout_append_newline, Lexeme.count_newline_scan]
  rfl

/-- A source that does not start with blanks starts in column zero. -/
theorem lineOn_scan {source : List Char} (h : source.head?.any Lexeme.isBlank = false)
    (line : Nat) : lineOn line [] (Lexeme.scan source) = layout line [] (Lexeme.scan source) := by
  cases hcolumn : column? (Lexeme.scan source) with
  | none => exact lineOn_of_column?_eq_none hcolumn line []
  | some column =>
      cases column with
      | zero => exact lineOn_of_column?_eq_zero hcolumn line (by simp)
      | succ column =>
          obtain ⟨run, ls, hscan, -⟩ := exists_blanks_of_column? hcolumn (Nat.succ_pos column)
          obtain ⟨c, cs, hc, hnext⟩ := Lexeme.exists_cons_of_head?_scan
            (show Lexeme.blanks run ∈ (Lexeme.scan source).head? by rw [hscan]; rfl)
          have hcut := Lexeme.next_cut c cs
          rw [hnext] at hcut
          generalize (Lexeme.next c cs).2 = rest at hcut
          cases hcut with
          | blanks hblank => simp [Option.mem_def.1 hc, hblank] at h

end Token

/-- On later lines, a source is read as the same program at later lines. -/
theorem Program.ofTokens_layout {source : String} {p : Program} (h : Program.parse source = .ok p)
    (n : Nat) :
    ofTokens (Token.layout (1 + n) [] (Lexeme.scan source.toList)) = .ok (p.mapLines (· + n)) := by
  have hstep : ∀ l k : Nat, l + n = id k → l + 1 + n = id (k + 1) := by
    intro l k hlk
    rw [Nat.add_right_comm, hlk]
    rfl
  obtain ⟨q, hq, hlines⟩ := ofTokens_like hstep
    (Token.like_layout hstep (Lexeme.scan source.toList) [] (show 1 + n = id (1 + n) from rfl)) h
  rw [Program.mapLines_id] at hlines
  rw [hq, hlines]

theorem transpile_eq {source : String} {p : Program} (h : Program.parse source = .ok p)
    (hp : p.checkLiterals = .ok ()) (width : Nat) :
    transpile source width =
      .ok ⟨((Writer.new width).program p).1, Stmt.blockDegraded p.statements⟩ := by
  rw [transpile, h]
  exact Program.generate_eq hp width

/-- `b` closes the blocks that are open at the end of `a`. -/
def Token.ClosesBlocks (a b : List Char) : Prop :=
  openBlocks a = [] ∨ startsInColumn (Lexeme.scan b) = true

open Token Grammar in
/-- The tokens of `a` and of `b` after it form the one program and then the
other, exactly if `b` closes the blocks of `a`. -/
theorem Grammar.nested_append_line_iff {a b : List Char} {ss ss' : List Stmt}
    (ha : Nested Program.fstringReader (.body ss) (ofProgram a))
    (hb : Nested Program.fstringReader (.body ss')
      (lineOn (1 + (a.count '\n' + 1)) [] (Lexeme.scan b))) :
    Nested Program.fstringReader (.body (ss ++ ss')) (ofProgram (a ++ '\n' :: b)) ↔
      ClosesBlocks a b := by
  have hmeets := hb.meets (Lexeme.isChain_scan b) (pos_of_mem_openBlocks a)
  have hfront := readable_ofProgram a
  have hall := readable_ofProgram (a ++ '\n' :: b)
  rw [ofProgram_eq] at ha hfront
  rw [ofProgram_append_line] at hall ⊢
  constructor
  · intro hboth
    by_contra hopen
    obtain ⟨hblocks, hcolumn⟩ := not_or.1 hopen
    rw [Bool.not_eq_true] at hcolumn
    rw [hcolumn] at hmeets
    exact ha.not_append_inside hfront hblocks rfl hmeets hall hboth
  · intro hcloses
    have hmeets' : Meets (openBlocks a) true (lineOn (1 + (a.count '\n' + 1)) [] (Lexeme.scan b))
        (lineOn (1 + (a.count '\n' + 1)) (openBlocks a) (Lexeme.scan b)) := by
      rcases hcloses with hblocks | hcolumn
      · rw [hblocks]
        exact .closed 0 _
      · rwa [hcolumn] at hmeets
    exact ha.append_meets (List.forall_mem_singleton.2 rfl) (List.cons_ne_nil _ _) hb hmeets'

open Token Grammar in
theorem Program.parse_append_line_iff {a b : String} {p q : Program}
    (ha : Program.parse a = .ok p) (hb : Program.parse b = .ok q)
    (hblank : b.toList.head?.any Lexeme.isBlank = false) :
    Program.parse (a ++ "\n" ++ b) =
        .ok (p.append (q.mapLines (· + (a.toList.count '\n' + 1)))) ↔
      ClosesBlocks a.toList b.toList := by
  have hfirst : Nested fstringReader (.body p.statements) (ofProgram a.toList) :=
    (ofTokens_eq_ok_iff.1 ha).nested (laidOut_ofProgram a.toList)
  have hsecond : Nested fstringReader
      (.body (q.mapLines (· + (a.toList.count '\n' + 1))).statements)
      (lineOn (1 + (a.toList.count '\n' + 1)) [] (Lexeme.scan b.toList)) := by
    rw [lineOn_scan hblank]
    exact (ofTokens_eq_ok_iff.1 (ofTokens_layout hb _)).nested (laidOut_layout b.toList _)
  have htext : (a ++ "\n" ++ b).toList = a.toList ++ '\n' :: b.toList := by
    simp [String.toList_append]
  rw [← nested_append_line_iff hfirst hsecond, Program.parse, htext, ofTokens_eq_ok_iff,
    formsProgram_iff_nested (laidOut_ofProgram _)]
  rfl

/-- If `a` and `b` are read as programs and `b` does not start with blanks, then
`b` on the lines after `a` is read as the one program and then the other, at later
lines, exactly if `b` closes the blocks that are open at the end of `a`. If also
the literals of both pass the checks, the code is what one writer writes for the
one program and then for the other, and has the comments of both in place of
constructs. -/
theorem parse_append_line {a b : String} {p q : Program} (ha : Program.parse a = .ok p)
    (hb : Program.parse b = .ok q) (hblank : b.toList.head?.any Lexeme.isBlank = false) :
    (Program.parse (a ++ "\n" ++ b) =
        .ok (p.append (q.mapLines (· + (a.toList.count '\n' + 1)))) ↔
      Token.ClosesBlocks a.toList b.toList) ∧
    (Token.ClosesBlocks a.toList b.toList → p.checkLiterals = .ok () → q.checkLiterals = .ok () →
      ∀ width, ∃ first second, transpile a width = .ok first ∧ transpile b width = .ok second ∧
        transpile (a ++ "\n" ++ b) width =
          .ok ⟨joinTexts [((Writer.new width).program p).1,
              (((Writer.new width).program p).2.program q).1],
            first.degradations ++ second.degradations⟩) := by
  refine ⟨Program.parse_append_line_iff ha hb hblank, fun hcloses hp hq width => ?_⟩
  have hboth := (Program.parse_append_line_iff ha hb hblank).2 hcloses
  refine ⟨_, _, transpile_eq ha hp width, transpile_eq hb hq width, ?_⟩
  rw [transpile, hboth]
  exact Program.generate_append hp hq _ width

/-- A loop with an `else` block, which is still open at the end. -/
def firstLoop : String := "while x:\n    if y:\n        break\nelse:\n    f(x + y)"

/-- Another such loop, after a comment and a blank line. -/
def secondLoop : String := "# again\n  \t\nwhile u:\n    break\nelse:\n    g(u - v)\n"

theorem parse_firstLoop_secondLoop :
    Token.openBlocks firstLoop.toList = [4] ∧
      Program.parse (firstLoop ++ "\n" ++ secondLoop) = .ok
        ⟨[.whileLoop (.ident "x") [.ifElse (.ident "y") [.breakLoop] .none]
            [.expr (.call (.ident "f") [.binary (.ident "x") .add (.ident "y") 5])],
          .whileLoop (.ident "u") [.breakLoop]
            [.expr (.call (.ident "g") [.binary (.ident "u") .sub (.ident "v") 11])]]⟩ ∧
      ∃ output, transpile (firstLoop ++ "\n" ++ secondLoop) 2 = .ok output ∧
        output.code =
          "let _loop_completed_1 = true;\nwhile (x) \x7b\n  if (y) \x7b\n" ++
          "    _loop_completed_1 = false;\n    break;\n  \x7d\n\x7d\n" ++
          "if (_loop_completed_1) \x7b\n  f(x + y);\n\x7d\n" ++
          "let _loop_completed_2 = true;\nwhile (u) \x7b\n" ++
          "  _loop_completed_2 = false;\n  break;\n\x7d\n" ++
          "if (_loop_completed_2) \x7b\n  g(u - v);\n\x7d" := by
  have hfirst : Program.parse firstLoop = .ok
      ⟨[.whileLoop (.ident "x") [.ifElse (.ident "y") [.breakLoop] .none]
        [.expr (.call (.ident "f") [.binary (.ident "x") .add (.ident "y") 5])]]⟩ :=
    Program.parse_eq_ok (by decide +kernel)
  have hsecond : Program.parse secondLoop = .ok
      ⟨[.whileLoop (.ident "u") [.breakLoop]
        [.expr (.call (.ident "g") [.binary (.ident "u") .sub (.ident "v") 6])]]⟩ :=
    Program.parse_eq_ok (by decide +kernel)
  have hcloses : Token.ClosesBlocks firstLoop.toList secondLoop.toList := .inr (by decide +kernel)
  obtain ⟨hparse, hcode⟩ := parse_append_line hfirst hsecond (by decide +kernel)
  obtain ⟨first, second, -, -, hboth⟩ := hcode hcloses rfl rfl 2
  refine ⟨by decide +kernel, (hparse.2 hcloses).trans ?_, _, hboth, ?_⟩
  · exact congrArg Except.ok (by decide +kernel)
  · dsimp only
    decide +kernel

/-- A carriage return in front of the text of the second source leaves this text
in the block that is open. -/
theorem carriageReturn_stays_inside :
    "\n\rz".toList.head?.any Lexeme.isBlank = false ∧
      Program.parse "if c:\n    y" = .ok ⟨[.ifElse (.ident "c") [.expr (.ident "y")] .none]⟩ ∧
      Program.parse "\n\rz" = .ok ⟨[.expr (.ident "z")]⟩ ∧
      Program.parse ("if c:\n    y" ++ "\n" ++ "\n\rz") =
        .ok ⟨[.ifElse (.ident "c") [.expr (.ident "y"), .expr (.ident "z")] .none]⟩ ∧
      Program.parse ("if c:\n    y" ++ "\n" ++ "\n\rz") ≠
        .ok ⟨[.ifElse (.ident "c") [.expr (.ident "y")] .none, .expr (.ident "z")]⟩ := by
  have hboth : Program.parse ("if c:\n    y" ++ "\n" ++ "\n\rz") =
      .ok ⟨[.ifElse (.ident "c") [.expr (.ident "y"), .expr (.ident "z")] .none]⟩ :=
    Program.parse_eq_ok (by decide +kernel)
  refine ⟨by decide +kernel, Program.parse_eq_ok (by decide +kernel),
    Program.parse_eq_ok (by decide +kernel), hboth, ?_⟩
  rw [hboth]
  intro heq
  exact absurd (Except.ok.inj heq) (by decide +kernel)

end Offside
