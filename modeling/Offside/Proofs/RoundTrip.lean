import Offside.Ast.Equality
import Offside.Proofs.Derivation.Likeness
import Offside.Proofs.Derivation.Written
import Offside.Proofs.Layout

/-!
# Offside.Proofs.RoundTrip

A program is **read back from its source**. Main statement: `parse_source`.

The source is cut into the lexemes that it was written with, and the tokens of a
line form what is written on it. What is left are the blocks:

* the layout opens a block before its first line and closes it after its last
  one, wherever the lines stand (`Token.ofLines`);
* so a statement is taken from the tokens of its lines, whatever lines come
  after it that do not belong to it (`Stmt.takes_lines`).

The lines that operators are found on are not those of the program that was
written, hence programs are compared without them.
-/

namespace Offside

open Grammar Lexeme

/-! ### Lines in blocks -/

namespace Token

/-- The columns of nested blocks, innermost first. -/
def blocksAt (width : Nat) : Nat → List Nat
  | 0 => []
  | depth + 1 => width * (depth + 1) :: blocksAt width depth

theorem headD_blocksAt (width depth : Nat) : (blocksAt width depth).headD 0 = width * depth := by
  cases depth <;> rfl

/-- A line inside the blocks that are open closes those that are deeper. -/
theorem shift_blocksAt (line width : Nat) {column depth : Nat} (h : column ≤ depth) :
    shift line (width * column) (blocksAt width depth) =
      (((blocksAt width depth).takeWhile (width * column < ·)).map (dedent line),
        (blocksAt width depth).dropWhile (width * column < ·)) := by
  rw [shift, headD_blocksAt, if_neg (Nat.not_lt.2 (Nat.mul_le_mul_left width h))]

/-- A line directly in the innermost block leaves the blocks as they are. -/
theorem shift_blocksAt_self (line width depth : Nat) :
    shift line (width * depth) (blocksAt width depth) = ([], blocksAt width depth) := by
  rw [shift_blocksAt line width (Nat.le_refl depth)]
  cases depth <;> simp [blocksAt]

/-- The tokens from the start of a line on, when the lines are written inside
`depth` blocks. -/
def ofLines (style : SourceStyle) (line depth : Nat) (ls : List SourceLine) : List Token :=
  lineOn line (blocksAt style.width depth) (ls.flatMap (SourceLine.layOut style))

theorem restIsBare_of_startsOperand {l : Lexeme} (h : l.startsOperand = true) (ls : List Lexeme) :
    restIsBare (l :: ls) = false := by
  cases l with
  | comment _ | newline => cases h
  | _ => rfl

theorem column?_layOut (style : SourceStyle) {l : SourceLine} (h : Fragment l.lexemes)
    (ms : List Lexeme) :
    column? (l.layOut style ++ ms) = some (style.width * l.depth) := by
  obtain ⟨first, ls, hls, hfirst⟩ := h.starts
  have hbare : ∀ ns, restIsBare (first :: ns) = false := restIsBare_of_startsOperand hfirst
  rw [SourceLine.layOut, indentation, hls]
  split
  · rename_i hcolumn
    rw [hcolumn]
    cases first with
    | blanks _ => cases hfirst
    | _ => simp [column?, hbare]
  · simp [column?, hbare]

theorem layout_append {ls : List Lexeme} (h : .newline ∉ ls) (line : Nat) (blocks : List Nat)
    (ms : List Lexeme) :
    layout line blocks (ls ++ ms) = tokens line ls ++ layout line blocks ms := by
  induction ls with
  | nil => rfl
  | cons l ls ih =>
      rw [List.mem_cons, not_or] at h
      rw [List.cons_append, layout_cons (Ne.symm h.1), ih h.2]
      cases hl : l.token? line <;> simp [tokens, hl]

theorem layout_layOut (style : SourceStyle) {l : SourceLine} (h : Fragment l.lexemes) (line : Nat)
    (blocks : List Nat) (ms : List Lexeme) :
    layout line blocks (l.layOut style ++ ms) =
      tokens line l.lexemes ++ newline line :: lineOn (line + 1) blocks ms := by
  have hindent : layout line blocks (l.layOut style ++ ms) =
      layout line blocks (l.lexemes ++ .newline :: ms) := by
    rw [SourceLine.layOut, indentation]
    split
    · simp
    · simp [layout_cons, token?]
  rw [hindent, layout_append h.newline, layout_newline]

theorem ofLines_cons (style : SourceStyle) (line depth : Nat) {l : SourceLine}
    (h : Fragment l.lexemes) (ls : List SourceLine) :
    ofLines style line depth (l :: ls) =
      (shift line (style.width * l.depth) (blocksAt style.width depth)).1 ++
        layout line (shift line (style.width * l.depth) (blocksAt style.width depth)).2
          ((l :: ls).flatMap (SourceLine.layOut style)) := by
  rw [ofLines, lineOn, shiftAt, List.flatMap_cons, column?_layOut style h]

/-- A line directly in the innermost block. -/
theorem ofLines_line (style : SourceStyle) (line : Nat) {l : SourceLine} (h : Fragment l.lexemes)
    (ls : List SourceLine) :
    ofLines style line l.depth (l :: ls) =
      tokens line l.lexemes ++ newline line :: ofLines style (line + 1) l.depth ls := by
  rw [ofLines_cons style line l.depth h, shift_blocksAt_self, List.flatMap_cons,
    layout_layOut style h]
  rfl

/-- The first line of a block opens it. -/
theorem ofLines_indent (style : SourceStyle) (line depth : Nat) {l : SourceLine}
    (h : Fragment l.lexemes) (hdepth : l.depth = depth + 1) (ls : List SourceLine) :
    ofLines style line depth (l :: ls) =
      indent line (style.width * (depth + 1)) :: ofLines style line (depth + 1) (l :: ls) := by
  have hdeeper : (blocksAt style.width depth).headD 0 < style.width * (depth + 1) := by
    rw [headD_blocksAt]
    exact Nat.mul_lt_mul_of_pos_left (Nat.lt_succ_self depth) style.width_pos
  rw [ofLines_cons style line depth h, ofLines_cons style line (depth + 1) h, hdepth,
    shift_blocksAt_self, shift, if_pos hdeeper]
  rfl

/-- A block is closed before a line outside of it, and at the end. -/
theorem ofLines_dedent (style : SourceStyle) (line depth : Nat) {ls : List SourceLine}
    (h : ∀ l ∈ ls.head?, Fragment l.lexemes ∧ l.depth ≤ depth) :
    ofLines style line (depth + 1) ls =
      dedent line (style.width * (depth + 1)) :: ofLines style line depth ls := by
  -- Both at the end of the text and at a line further left the innermost block is closed first.
  cases ls with
  | nil => rfl
  | cons l ls =>
      obtain ⟨hl, hdepth⟩ := h l rfl
      have hless : style.width * l.depth < style.width * (depth + 1) :=
        Nat.mul_lt_mul_of_pos_left (Nat.lt_succ_of_le hdepth) style.width_pos
      rw [ofLines_cons style line (depth + 1) hl, ofLines_cons style line depth hl,
        shift_blocksAt line style.width hdepth,
        shift_blocksAt line style.width (Nat.le_succ_of_le hdepth)]
      simp [blocksAt, hless]

end Token

/-! ### What comes after a statement -/

/-- Lines that are read back and do not belong to a block inside the first
`depth` ones. -/
structure SourceLine.Outside (depth : Nat) (ls : List SourceLine) : Prop where
  fragment : ∀ l ∈ ls, Fragment l.lexemes
  depth_le : ∀ l ∈ ls.head?, l.depth ≤ depth

open SourceLine (Outside)

theorem SourceLine.Outside.append {depth : Nat} {ms ls : List SourceLine} (hls : Outside depth ls)
    (hms : ∀ l ∈ ms, Fragment l.lexemes) (hdepth : ∀ l ∈ ms.head?, l.depth ≤ depth) :
    Outside depth (ms ++ ls) := by
  refine ⟨List.forall_mem_append.2 ⟨hms, hls.fragment⟩, ?_⟩
  cases ms with
  | nil => exact hls.depth_le
  | cons m ms => exact hdepth

namespace Stmt

section

variable (style : SourceStyle) (depth : Nat)

theorem exists_lines_cons (s : Stmt) : ∃ ls rest, s.lines style depth = ⟨depth, ls⟩ :: rest := by
  cases s with
  | returnValue value => cases value <;> exact ⟨_, _, rfl⟩
  | _ => exact ⟨_, _, rfl⟩

theorem depth_blockLines (ss : List Stmt) :
    ∀ l ∈ (blockLines style depth ss).head?, l.depth ≤ depth := by
  cases ss with
  | nil => simp [blockLines]
  | cons s ss =>
      obtain ⟨ls, rest, hlines⟩ := exists_lines_cons style depth s
      simp [blockLines, hlines]

theorem depth_alternateLines (a : Alternate) :
    ∀ l ∈ (alternateLines style depth a).head?, l.depth ≤ depth := by
  cases a <;> simp [alternateLines]

theorem depth_orelseLines (ss : List Stmt) :
    ∀ l ∈ (orelseLines style depth ss).head?, l.depth ≤ depth := by
  cases ss <;> simp [orelseLines]

theorem ofLines_header {keyword : String} {ls : List Lexeme} (hkeyword : keyword.toList ∈ keywords)
    (h : Fragment (header keyword ls)) (line : Nat) (rest : List SourceLine) :
    Token.ofLines style line depth (⟨depth, header keyword ls⟩ :: rest) =
      ⟨.keyword, keyword, line⟩ :: (tokens line ls ++
        ⟨.delimiter, ":", line⟩ :: Token.newline line ::
          Token.ofLines style (line + 1) depth rest) := by
  have hline := Token.ofLines_line style line (l := ⟨depth, header keyword ls⟩) h rest
  rw [hline, header, tokens_keyword hkeyword, tokens_space, tokens_append]
  simp

theorem ofLines_elseHeader (line : Nat) (rest : List SourceLine) :
    Token.ofLines style line depth (⟨depth, elseHeader⟩ :: rest) =
      ⟨.keyword, "else", line⟩ :: ⟨.delimiter, ":", line⟩ :: Token.newline line ::
        Token.ofLines style (line + 1) depth rest :=
  Token.ofLines_line style line (l := ⟨depth, elseHeader⟩) fragment_elseHeader rest

end

end Stmt

namespace SourceLine.Outside

variable {style : SourceStyle} {depth : Nat} {ls : List SourceLine} (hls : Outside depth ls)

include hls

theorem deeper : Outside (depth + 1) ls :=
  ⟨hls.fragment, fun l hl => Nat.le_succ_of_le (hls.depth_le l hl)⟩

theorem blockLines {ss : List Stmt} (h : Stmt.areWellFormed style ss = true) :
    Outside depth (Stmt.blockLines style depth ss ++ ls) :=
  hls.append (Stmt.fragment_blockLines depth ss h) (Stmt.depth_blockLines style depth ss)

theorem alternateLines {a : Alternate} (h : Stmt.isAlternate style a = true) :
    Outside depth (Stmt.alternateLines style depth a ++ ls) :=
  hls.append (Stmt.fragment_alternateLines depth a h) (Stmt.depth_alternateLines style depth a)

theorem orelseLines {ss : List Stmt} (h : Stmt.areWellFormed style ss = true) :
    Outside depth (Stmt.orelseLines style depth ss ++ ls) :=
  hls.append (Stmt.fragment_orelseLines depth ss h) (Stmt.depth_orelseLines style depth ss)

end SourceLine.Outside

namespace Stmt

/-- The first line of a block opens it, so a block is taken if its statements
are. -/
theorem takes_block {r : Reader} {style : SourceStyle} {body body' : List Stmt} {depth line : Nat}
    {ls : List SourceLine} {rest : List Token} (h : isBlock style body = true)
    (hbody : Takes r (.body body') (Token.ofLines style (line + 1) (depth + 1)
      (blockLines style (depth + 1) body ++ ls)) rest) :
    Takes r (.block body') (⟨.delimiter, ":", line⟩ :: Token.newline line ::
      Token.ofLines style (line + 1) depth (blockLines style (depth + 1) body ++ ls)) rest := by
  obtain ⟨hne, hwellFormed⟩ := areWellFormed_of_isBlock h
  have hfragment := fragment_blockLines (depth + 1) body hwellFormed
  obtain ⟨s, ss, rfl⟩ := List.exists_cons_of_ne_nil hne
  obtain ⟨first, more, hlines⟩ := exists_lines_cons style (depth + 1) s
  have hblock : blockLines style (depth + 1) (s :: ss) =
      ⟨depth + 1, first⟩ :: (more ++ blockLines style (depth + 1) ss) := by
    rw [blockLines, hlines, List.cons_append]
  rw [hblock] at hfragment
  rw [hblock, List.cons_append] at hbody ⊢
  have hfirst : Fragment first := hfragment ⟨depth + 1, first⟩ List.mem_cons_self
  rw [Token.ofLines_indent style (line + 1) depth hfirst rfl]
  exact .block (Token.is_mk ..) rfl rfl hbody

mutual

/-- A statement is taken from the tokens of its lines, up to line ends. -/
theorem takes_lines {r : Reader} {style : SourceStyle} (s : Stmt) (h : s.isWellFormed style = true)
    (depth line : Nat) {ls : List SourceLine} (hls : Outside depth ls)
    (helse : ∀ n, NoElse (Token.ofLines style n depth ls)) :
    ∃ s' ys n, s'.mapLines (fun _ => 0) = s.mapLines (fun _ => 0) ∧
      (∀ y ∈ ys, y.kind = .newline) ∧
      Takes r (.statement s') (Token.ofLines style line depth (s.lines style depth ++ ls))
        (ys ++ Token.ofLines style n depth ls) := by
  by_cases hsimple : s.isSimple = true
  · -- The line end after a simple statement is left to the block around it.
    obtain ⟨written, hlines, hform⟩ := simple_lines (r := r) hsimple h depth line
    have hfragment := fragment_lines depth s h
    rw [hlines, List.forall_mem_singleton] at hfragment
    have htokens := Token.ofLines_line style line (l := ⟨depth, written⟩) hfragment ls
    refine ⟨s.mapLines fun _ => line, [Token.newline line], line + 1, ?_, ?_, ?_⟩
    · exact mapLines_mapLines (fun _ => line) (fun _ => 0) s
    · simp [Token.newline]
    · rw [hlines, List.singleton_append, htokens]
      refine .line hform ?_
      rintro _ ⟨⟩
      rfl
  · match s with
    | .functionDef name params body =>
        simp only [isWellFormed, Bool.and_eq_true, List.all_eq_true] at h
        obtain ⟨⟨hname, hparams⟩, hbody⟩ := h
        obtain ⟨body', n, us, hsame, htokens, hblock⟩ := takes_suite body hbody depth line hls
          (show "def".toList ∈ keywords by decide) (fragment_signature hname hparams)
        refine ⟨.functionDef name params body', [], n, ?_, List.forall_mem_nil _, ?_⟩
        · simp only [mapLines, hsame]
        · rw [lines, List.cons_append, htokens, tokens_name hname, tokens_delimiter]
          exact @Takes.functionDef r _ ⟨.identifier, name, line⟩ _ _ _ _ _ _ (Token.is_mk ..) rfl
            (Token.is_mk ..) (parameters_tokens hparams line) hblock
    | .ifElse condition body alternate =>
        simp only [isWellFormed, Bool.and_eq_true] at h
        obtain ⟨⟨hcondition, hbody⟩, halternate⟩ := h
        obtain ⟨body', n, us, hsame, htokens, hblock⟩ := takes_suite body hbody depth line
          (hls.alternateLines halternate) (show "if".toList ∈ keywords by decide)
          (condition.fragment_lexemes hcondition)
        obtain ⟨alternate', n', hsame', htakes⟩ :=
          takes_alternateLines alternate halternate depth n hls helse
        refine ⟨.ifElse (condition.mapLines fun _ => line) body' alternate', [], n', ?_,
          List.forall_mem_nil _, ?_⟩
        · simp only [mapLines, hsame, hsame', Expr.mapLines_mapLines]
          rfl
        · rw [lines, List.cons_append, List.append_assoc, htokens]
          exact .conditional (Token.is_mk ..) (Expr.forms_whole hcondition) hblock htakes
    | .whileLoop condition body orelse =>
        simp only [isWellFormed, Bool.and_eq_true] at h
        obtain ⟨⟨hcondition, hbody⟩, horelse⟩ := h
        obtain ⟨body', n, us, hsame, htokens, hblock⟩ := takes_suite body hbody depth line
          (hls.orelseLines horelse) (show "while".toList ∈ keywords by decide)
          (condition.fragment_lexemes hcondition)
        obtain ⟨orelse', n', hsame', htakes⟩ :=
          takes_orelseLines orelse horelse depth n hls helse
        refine ⟨.whileLoop (condition.mapLines fun _ => line) body' orelse', [], n', ?_,
          List.forall_mem_nil _, ?_⟩
        · simp only [mapLines, hsame, hsame', Expr.mapLines_mapLines]
          rfl
        · rw [lines, List.cons_append, List.append_assoc, htokens]
          exact .whileLoop (Token.is_mk ..) (Expr.forms_whole hcondition) hblock htakes
    | .forLoop target iter body orelse =>
        simp only [isWellFormed, Bool.and_eq_true] at h
        obtain ⟨⟨⟨⟨htarget, hprimary⟩, hiter⟩, hbody⟩, horelse⟩ := h
        obtain ⟨body', n, us, hsame, htokens, hblock⟩ := takes_suite body hbody depth line
          (hls.orelseLines horelse) (show "for".toList ∈ keywords by decide)
          (fragment_forClause htarget hiter)
        obtain ⟨orelse', n', hsame', htakes⟩ :=
          takes_orelseLines orelse horelse depth n hls helse
        -- The target ends before `in`, which no primary expression goes on with.
        have hbase : Forms r (.primary (target.mapLines fun _ => line))
            (tokens line (target.lexemes style)) :=
          (Expr.forms_lexemes target htarget).primary_of_phrase
            ((Expr.isPrimary_mapLines ..).trans hprimary)
        refine ⟨.forLoop (target.mapLines fun _ => line) (iter.mapLines fun _ => line) body'
          orelse', [], n', ?_, List.forall_mem_nil _, ?_⟩
        · simp only [mapLines, hsame, hsame', Expr.mapLines_mapLines]
          rfl
        · rw [lines, List.cons_append, List.append_assoc, htokens, tokens_append, tokens_space,
            tokens_keyword (by decide), tokens_space, List.append_assoc, List.cons_append]
          exact .forLoop (Token.is_mk ..) hbase (Token.is_mk ..) (Expr.forms_whole hiter) hblock
            htakes
    | .classDef name body =>
        simp only [isWellFormed, Bool.and_eq_true] at h
        obtain ⟨hname, hbody⟩ := h
        obtain ⟨body', n, us, hsame, htokens, hblock⟩ := takes_suite body hbody depth line hls
          (show "class".toList ∈ keywords by decide) (fragment_word (isWord_of_isName hname))
        refine ⟨.classDef name body', [], n, ?_, List.forall_mem_nil _, ?_⟩
        · simp only [mapLines, hsame]
        · rw [lines, List.cons_append, htokens, tokens_name hname]
          exact @Takes.classDef r _ ⟨.identifier, name, line⟩ _ _ _ (Token.is_mk ..) rfl hblock

/-- A block is taken from the tokens of its lines, after those of its header. -/
theorem takes_suite {r : Reader} {style : SourceStyle} (body : List Stmt)
    (h : isBlock style body = true) (depth line : Nat) {ls : List SourceLine}
    (hls : Outside depth ls) {keyword : String} (hkeyword : keyword.toList ∈ keywords)
    {written : List Lexeme} (hwritten : Fragment written) :
    ∃ body' n us, mapBlockLines (fun _ => 0) body' = mapBlockLines (fun _ => 0) body ∧
      Token.ofLines style line depth
        (⟨depth, header keyword written⟩ :: (blockLines style (depth + 1) body ++ ls)) =
          ⟨.keyword, keyword, line⟩ :: (tokens line written ++ us) ∧
      Takes r (.block body') us (Token.ofLines style n depth ls) := by
  have hword := isWord_of_mem_keywords hkeyword
  have htokens := ofLines_header style depth hkeyword (fragment_header hword hwritten) line
  obtain ⟨body', n, hsame, htakes⟩ :=
    takes_blockLines body (areWellFormed_of_isBlock h).2 depth (line + 1) hls
  exact ⟨body', n, _, hsame, htokens _, takes_block h htakes⟩

theorem takes_alternateLines {r : Reader} {style : SourceStyle} (a : Alternate)
    (h : isAlternate style a = true) (depth line : Nat) {ls : List SourceLine}
    (hls : Outside depth ls) (helse : ∀ n, NoElse (Token.ofLines style n depth ls)) :
    ∃ a' n, mapAlternateLines (fun _ => 0) a' = mapAlternateLines (fun _ => 0) a ∧
      Takes r (.alternate a')
        (Token.ofLines style line depth (alternateLines style depth a ++ ls))
        (Token.ofLines style n depth ls) := by
  match a with
  | .none => exact ⟨.none, line, rfl, .noAlternate (helse line)⟩
  | .elseIf condition body alternate =>
      simp only [isAlternate, Bool.and_eq_true] at h
      obtain ⟨⟨hcondition, hbody⟩, halternate⟩ := h
      obtain ⟨body', n, us, hsame, htokens, hblock⟩ := takes_suite body hbody depth line
        (hls.alternateLines halternate) (show "elif".toList ∈ keywords by decide)
        (condition.fragment_lexemes hcondition)
      obtain ⟨alternate', n', hsame', htakes⟩ :=
        takes_alternateLines alternate halternate depth n hls helse
      refine ⟨.elseIf (condition.mapLines fun _ => line) body' alternate', n', ?_, ?_⟩
      · simp only [mapAlternateLines, hsame, hsame', Expr.mapLines_mapLines]
        rfl
      · rw [alternateLines, List.cons_append, List.append_assoc, htokens]
        exact .elseIf (Token.is_mk ..) (Expr.forms_whole hcondition) hblock htakes
  | .otherwise body =>
      rw [isAlternate] at h
      obtain ⟨body', n, hsame, htakes⟩ :=
        takes_blockLines body (areWellFormed_of_isBlock h).2 depth (line + 1) hls
      refine ⟨.otherwise body', n, ?_, ?_⟩
      · simp only [mapAlternateLines, hsame]
      · rw [alternateLines, List.cons_append, ofLines_elseHeader]
        exact .otherwise (Token.is_mk ..) (takes_block h htakes)

theorem takes_orelseLines {r : Reader} {style : SourceStyle} (ss : List Stmt)
    (h : areWellFormed style ss = true) (depth line : Nat) {ls : List SourceLine}
    (hls : Outside depth ls) (helse : ∀ n, NoElse (Token.ofLines style n depth ls)) :
    ∃ ss' n, mapBlockLines (fun _ => 0) ss' = mapBlockLines (fun _ => 0) ss ∧
      Takes r (.orelse ss') (Token.ofLines style line depth (orelseLines style depth ss ++ ls))
        (Token.ofLines style n depth ls) := by
  by_cases hne : ss = []
  · subst hne
    exact ⟨[], line, rfl, .noLoopElse fun t ht => (helse line t ht).2⟩
  · obtain ⟨ss', n, hsame, htakes⟩ := takes_blockLines ss h depth (line + 1) hls
    refine ⟨ss', n, hsame, ?_⟩
    rw [orelseLines_eq style depth hne, List.cons_append, ofLines_elseHeader]
    exact .loopElse (Token.is_mk ..) (takes_block (isBlock_of_areWellFormed hne h) htakes)

/-- The statements of a block are taken from the tokens of its lines, and with
them the end of the block. -/
theorem takes_blockLines {r : Reader} {style : SourceStyle} (ss : List Stmt)
    (h : areWellFormed style ss = true) (depth line : Nat) {ls : List SourceLine}
    (hls : Outside depth ls) :
    ∃ ss' n, mapBlockLines (fun _ => 0) ss' = mapBlockLines (fun _ => 0) ss ∧
      Takes r (.body ss')
        (Token.ofLines style line (depth + 1) (blockLines style (depth + 1) ss ++ ls))
        (Token.ofLines style n depth ls) := by
  match ss with
  | [] =>
      have hdedent := Token.ofLines_dedent style line depth fun l hl =>
        ⟨hls.fragment l (List.mem_of_mem_head? hl), hls.depth_le l hl⟩
      refine ⟨[], line, rfl, ?_⟩
      rw [blockLines, List.nil_append, hdedent]
      exact .dedent rfl
  | s :: ss =>
      simp only [areWellFormed, Bool.and_eq_true] at h
      have hrest : Outside (depth + 1) (blockLines style (depth + 1) ss ++ ls) :=
        hls.deeper.blockLines h.2
      -- Whatever line they stand on, the later statements do not start with `else`.
      have helse : ∀ n, NoElse (Token.ofLines style n (depth + 1)
          (blockLines style (depth + 1) ss ++ ls)) := by
        intro n
        obtain ⟨ss', m, -, htakes⟩ := takes_blockLines (r := r) ss h.2 depth n hls
        exact htakes.noElse_body
      obtain ⟨s', ys, n, hsame, hys, htakes⟩ := takes_lines s h.1 (depth + 1) line hrest helse
      obtain ⟨ss', n', hsame', htakes'⟩ := takes_blockLines ss h.2 depth n hls
      refine ⟨s' :: ss', n', ?_, ?_⟩
      · simp only [mapBlockLines, hsame, hsame']
      · rw [blockLines, List.append_assoc]
        exact .bodyStatement htakes (htakes'.newlines hys)

end

/-- The tokens of the lines of statements form a program. -/
theorem formsProgram_blockLines {r : Reader} {style : SourceStyle} {ss : List Stmt}
    (h : areWellFormed style ss = true) (line : Nat) :
    ∃ ss', mapBlockLines (fun _ => 0) ss' = mapBlockLines (fun _ => 0) ss ∧
      FormsProgram r ss' (Token.ofLines style line 0 (blockLines style 0 ss)) := by
  induction ss generalizing line with
  | nil => exact ⟨[], rfl, .done⟩
  | cons s ss ih =>
      simp only [areWellFormed, Bool.and_eq_true] at h
      have hrest : Outside 0 (blockLines style 0 ss) :=
        ⟨fragment_blockLines 0 ss h.2, depth_blockLines style 0 ss⟩
      have helse : ∀ n, NoElse (Token.ofLines style n 0 (blockLines style 0 ss)) := by
        intro n
        obtain ⟨ss', -, hforms⟩ := ih h.2 n
        exact hforms.noElse
      obtain ⟨s', ys, n, hsame, hys, htakes⟩ := takes_lines s h.1 0 line hrest helse
      obtain ⟨ss', hsame', hforms⟩ := ih h.2 n
      refine ⟨s' :: ss', ?_, .statement htakes (hforms.newlines hys)⟩
      simp only [mapBlockLines, hsame, hsame']

end Stmt

/-! ### Programs -/

/-- The first line of a source opens no block, as if a line had ended before
it. -/
theorem Token.ofProgram_source {style : SourceStyle} {p : Program}
    (h : p.isWellFormed style = true) :
    ofProgram (p.source style).toList =
      ofLines style 1 0 (Stmt.blockLines style 0 p.statements) := by
  have hfragment := Stmt.fragment_blockLines 0 p.statements h
  have hdepth := Stmt.depth_blockLines style 0 p.statements
  rw [ofProgram, Program.scan_source h, Program.lexemes]
  cases hlines : Stmt.blockLines style 0 p.statements with
  | nil => rfl
  | cons l ls =>
      rw [hlines] at hfragment hdepth
      have hzero : l.depth = 0 := Nat.le_zero.1 (hdepth l rfl)
      rw [ofLines_cons style 1 0 (hfragment l List.mem_cons_self), hzero, shift_blocksAt_self]
      rfl

/-- **A program is read back from its source**, but for the lines. -/
theorem parse_source {style : SourceStyle} {p : Program} (h : p.isWellFormed style = true) :
    ∃ q, Program.parse (p.source style) = .ok q ∧ q.eraseLines = p.eraseLines := by
  obtain ⟨ss, hsame, hforms⟩ := Stmt.formsProgram_blockLines h 1
  refine ⟨⟨ss⟩, ?_, congrArg Program.mk hsame⟩
  rw [Program.parse, Token.ofProgram_source h]
  exact Program.ofTokens_eq_ok_iff.2 hforms

/-- Four spaces, single quotes, and one number. -/
def sampleStyle : SourceStyle := ⟨4, by decide, '\'', .inr rfl, fun _ => "1.5".toList⟩

/-- A program with nested blocks, all kinds of branches, and operators of several
powers. -/
def sampleProgram : Program :=
  ⟨[.importModule ["os", "path"],
    .functionDef "f" ["self", "x"]
      [.forLoop (.attr (.ident "self") "item") (.call (.ident "range") [.ident "x", .list []])
        [.ifElse (.binary (.unary .not (.ident "x")) .and
            (.binary (.ident "x") .ltEq (.literal (.number (.ofDecimal false ⟨15, -1⟩))) 0) 0)
          [.continueLoop]
          (.elseIf (.group (.ident "x")) [.breakLoop]
            (.otherwise [.augAssign (.index (.ident "a") (.ident "x")) .floorDiv
              (.unary .neg (.unary .neg (.ident "x")))]))]
        [.returnValue (some (.literal (.string "it's\n")))]],
    .expr (.binary (.binary (.ident "f") .sub (.ident "f") 0) .sub
      (.binary (.ident "f") .pow (.literal .null) 0) 0)]⟩

theorem parse_source_sampleProgram :
    sampleProgram.source sampleStyle =
      "import os.path\n" ++
      "def f(self, x):\n" ++
      "    for self.item in range(x, []):\n" ++
      "        if not x and x <= 1.5:\n" ++
      "            continue\n" ++
      "        elif (x):\n" ++
      "            break\n" ++
      "        else:\n" ++
      "            a[x] //= --x\n" ++
      "    else:\n" ++
      "        return 'it\\'s\\n'\n" ++
      "f - f - f ** None\n" ∧
      ∃ q, Program.parse (sampleProgram.source sampleStyle) = .ok q ∧
        q.eraseLines = sampleProgram.eraseLines :=
  ⟨by decide +kernel, parse_source (by decide +kernel)⟩

end Offside
