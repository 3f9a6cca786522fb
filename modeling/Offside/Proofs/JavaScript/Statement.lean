import Offside.Target.Stmt

/-!
# Offside.Proofs.JavaScript.Statement

The **concrete form of JavaScript statements**. `Stmt.BlockHasText` says which texts
are those of statements by the rules of the language, without lines, depths or a
width: a block is statements between braces, blanks and line ends may stand before
and after every statement, and a comment with two slashes goes up to the end of its
line. Expressions and names are taken with the text that they have on their own.

Main statement: `Stmt.isCode_renderLines`, by which the lines of statements, at
every depth and for every width, are a text of just these statements.
-/

namespace Offside.Target

/-- Blanks and line ends, which may stand between two statements. -/
def IsGap (text : String) : Prop := ∀ c ∈ text.toList, c = ' ' ∨ c = '\n'

theorem IsGap.append {text rest : String} (h : IsGap text) (hrest : IsGap rest) :
    IsGap (text ++ rest) := by
  rw [IsGap, String.toList_append]
  exact List.forall_mem_append.2 ⟨h, hrest⟩

theorem isGap_newline : IsGap "\n" := by simp [IsGap]

theorem isGap_spaces (n : Nat) : IsGap (String.ofList (List.replicate n ' ')) := by
  rw [IsGap, String.toList_ofList]
  exact fun c hc => .inl (List.eq_of_mem_replicate hc)

namespace Stmt

mutual

/-- A text is that of a statement, from its first to its last character. -/
inductive HasText : Stmt → String → Prop where
  | assign (target value : Expr) :
      HasText (.assign target value) (target.render ++ " = " ++ value.render ++ ";")
  | staticField (name value : Expr) :
      HasText (.staticField name value) ("static " ++ name.render ++ " = " ++ value.render ++ ";")
  | update (target : Expr) (op : BinaryOp) (value : Expr) :
      HasText (.update target op value)
        (target.render ++ " " ++ op.symbol ++ "= " ++ value.render ++ ";")
  | expr (value : Expr) : HasText (.expr value) (value.render ++ ";")
  | returnValue (value : Expr) :
      HasText (.returnValue (some value)) ("return " ++ value.render ++ ";")
  | returnNothing : HasText (.returnValue none) "return;"
  | breakLoop : HasText .breakLoop "break;"
  | continueLoop : HasText .continueLoop "continue;"
  | empty : HasText .empty ";"
  | unsupported (degradation : Degradation) :
      HasText (.unsupported degradation) ("/* Unsupported " ++ degradation.detail ++ " */")
  | setFlag (flag : String) : HasText (.setFlag flag) ("let " ++ flag ++ " = true;")
  | clearFlag (flag : String) : HasText (.clearFlag flag) (flag ++ " = false;")
  | whileTrue (condition : Expr) {body : List Stmt} {text : String} : BlockHasText body text →
      HasText (.loop (.whileTrue condition) body)
        ("while (" ++ condition.render ++ ") \x7b" ++ text ++ "\x7d")
  | each (target iterable : Expr) {body : List Stmt} {text : String} : BlockHasText body text →
      HasText (.loop (.each target iterable) body)
        ("for (var " ++ target.render ++ " of " ++ iterable.render ++ ") \x7b" ++ text ++ "\x7d")
  | countedUp (target start stop : Expr) (amount : String) {body : List Stmt} {text : String} :
      BlockHasText body text →
      HasText (.loop (.counted target start stop false amount) body)
        ("for (var " ++ target.render ++ " = " ++ start.render ++ "; " ++
          target.render ++ " < " ++ stop.render ++ "; " ++
          target.render ++ " += " ++ amount ++ ") \x7b" ++ text ++ "\x7d")
  | countedDown (target start stop : Expr) (amount : String) {body : List Stmt} {text : String} :
      BlockHasText body text →
      HasText (.loop (.counted target start stop true amount) body)
        ("for (var " ++ target.render ++ " = " ++ start.render ++ "; " ++
          target.render ++ " > " ++ stop.render ++ "; " ++
          target.render ++ " -= " ++ amount ++ ") \x7b" ++ text ++ "\x7d")
  | ifFlag (flag : String) {body : List Stmt} {text : String} : BlockHasText body text →
      HasText (.ifFlag flag body) ("if (" ++ flag ++ ") \x7b" ++ text ++ "\x7d")
  | ifElse (condition : Expr) {body : List Stmt} {alternate : Alternate} {text rest : String} :
      BlockHasText body text → AlternateHasText alternate rest →
      HasText (.ifElse condition body alternate)
        ("if (" ++ condition.render ++ ") \x7b" ++ text ++ "\x7d" ++ rest)
  | function (name : String) (params : List String) {body : List Stmt} {text : String} :
      BlockHasText body text →
      HasText (.function name params body)
        ("function " ++ name ++ "(" ++ ", ".intercalate params ++ ") \x7b" ++ text ++ "\x7d")
  | method (name : String) (params : List String) {body : List Stmt} {text : String} :
      BlockHasText body text →
      HasText (.method name params body)
        (name ++ "(" ++ ", ".intercalate params ++ ") \x7b" ++ text ++ "\x7d")
  | classDef (name : String) {body : List Stmt} {text : String} : BlockHasText body text →
      HasText (.classDef name body) ("class " ++ name ++ " \x7b" ++ text ++ "\x7d")

/-- A text is that of the rest of a conditional, from behind the brace that closes the
block before it. -/
inductive AlternateHasText : Alternate → String → Prop where
  | none : AlternateHasText .none ""
  | elseIf (condition : Expr) {body : List Stmt} {alternate : Alternate} {text rest : String} :
      BlockHasText body text → AlternateHasText alternate rest →
      AlternateHasText (.elseIf condition body alternate)
        (" else if (" ++ condition.render ++ ") \x7b" ++ text ++ "\x7d" ++ rest)
  | otherwise {body : List Stmt} {text : String} : BlockHasText body text →
      AlternateHasText (.otherwise body) (" else \x7b" ++ text ++ "\x7d")

/-- A text is that of statements one after the other. -/
inductive BlockHasText : List Stmt → String → Prop where
  | nil {gap : String} : IsGap gap → BlockHasText [] gap
  | cons {gap text rest : String} {s : Stmt} {ss : List Stmt} :
      IsGap gap → HasText s text → BlockHasText ss rest →
      BlockHasText (s :: ss) (gap ++ text ++ rest)
  /-- A comment that ends with its line. -/
  | note (name : String) {gap rest : String} {ss : List Stmt} : IsGap gap → BlockHasText ss rest →
      BlockHasText (.importNote name :: ss) (gap ++ "// import " ++ name ++ "\n" ++ rest)

end

/-- A text is that of a program. It counts as ended by a line end, which a comment on
its last line needs. -/
def IsCode (code : List Stmt) (text : String) : Prop := BlockHasText code (text ++ "\n")

/-! ### Gaps around statements -/

namespace BlockHasText

variable {gap text : String} {ss : List Stmt}

theorem gap_append (hgap : IsGap gap) (h : BlockHasText ss text) :
    BlockHasText ss (gap ++ text) := by
  cases h with
  | nil hfirst => exact .nil (hgap.append hfirst)
  | cons hfirst hs hss =>
      rw [← String.append_assoc, ← String.append_assoc]
      exact .cons (hgap.append hfirst) hs hss
  | note name hfirst hss =>
      rw [← String.append_assoc, ← String.append_assoc, ← String.append_assoc,
        ← String.append_assoc]
      exact .note name (hgap.append hfirst) hss

theorem append_gap (h : BlockHasText ss text) (hgap : IsGap gap) :
    BlockHasText ss (text ++ gap) := by
  induction ss generalizing text with
  | nil =>
      obtain ⟨hfirst⟩ := h
      exact .nil (hfirst.append hgap)
  | cons s ss ih =>
      cases h with
      | cons hfirst hs hss =>
          rw [String.append_assoc]
          exact .cons hfirst hs (ih hss)
      | note name hfirst hss =>
          rw [String.append_assoc]
          exact .note name hfirst (ih hss)

end BlockHasText

end Stmt

/-! ### Lines

Lines that are written below each other, each with a line end of its own, are put
together like the statements they belong to.
-/

/-- The text of lines that all end with a line end. -/
def endedLines (width : Nat) (ls : List Line) : String :=
  String.join (ls.map fun l => l.render width ++ "\n")

@[simp]
theorem endedLines_nil (width : Nat) : endedLines width [] = "" := rfl

@[simp]
theorem endedLines_cons (width : Nat) (l : Line) (ls : List Line) :
    endedLines width (l :: ls) = l.render width ++ "\n" ++ endedLines width ls := by
  simp [endedLines, String.join_cons]

@[simp]
theorem endedLines_append (width : Nat) (ls ls' : List Line) :
    endedLines width (ls ++ ls') = endedLines width ls ++ endedLines width ls' := by
  induction ls with
  | nil => simp
  | cons l ls ih => simp [ih, String.append_assoc]

/-- The last line of a text has no line end. A text without lines counts as one. -/
theorem endedLines_orBlankLine (width : Nat) (ls : List Line) :
    endedLines width (orBlankLine ls) = renderLines width ls ++ "\n" := by
  cases ls with
  | nil => simp [orBlankLine, renderLines, Line.render]
  | cons l ls =>
      rw [orBlankLine, renderLines]
      · induction ls generalizing l with
        | nil => simp
        | cons l' ls ih =>
            rw [endedLines_cons, ih l']
            simp [String.intercalate_cons_cons, String.append_assoc]
      · simp

namespace Stmt

variable {width : Nat}

/-! ### Texts of statements and blocks

Two texts are compared by their characters, since a brace or a line end that stands in
a literal of one can stand on its own in the other.
-/

theorem HasText.of_eq {text text' : String} {s : Stmt} (h : HasText s text)
    (heq : text'.toList = text.toList) : HasText s text' := by
  rwa [String.toList_inj.1 heq]

theorem BlockHasText.of_eq {text text' : String} {ss : List Stmt} (h : BlockHasText ss text)
    (heq : text'.toList = text.toList) : BlockHasText ss text' := by
  rwa [String.toList_inj.1 heq]

theorem HasText.loop (header : LoopHeader) {body : List Stmt} {text : String}
    (h : BlockHasText body text) :
    HasText (.loop header body) (header.render ++ " \x7b" ++ text ++ "\x7d") := by
  match header with
  | .whileTrue condition =>
      have hrender : (LoopHeader.whileTrue condition).render =
          "while (" ++ condition.render ++ ")" := rfl
      exact (whileTrue condition h).of_eq (by simp [hrender])
  | .each target iterable =>
      have hrender : (LoopHeader.each target iterable).render =
          "for (var " ++ target.render ++ " of " ++ iterable.render ++ ")" := rfl
      exact (each target iterable h).of_eq (by simp [hrender])
  | .counted target start stop false amount =>
      have hrender : (LoopHeader.counted target start stop false amount).render =
          "for (var " ++ target.render ++ " = " ++ start.render ++ "; " ++ target.render ++ " < " ++
            stop.render ++ "; " ++ target.render ++ " += " ++ amount ++ ")" := rfl
      exact (countedUp target start stop amount h).of_eq (by simp [hrender])
  | .counted target start stop true amount =>
      have hrender : (LoopHeader.counted target start stop true amount).render =
          "for (var " ++ target.render ++ " = " ++ start.render ++ "; " ++ target.render ++ " > " ++
            stop.render ++ "; " ++ target.render ++ " -= " ++ amount ++ ")" := rfl
      exact (countedDown target start stop amount h).of_eq (by simp [hrender])

/-- The text of a line, with the gaps around it. -/
theorem BlockHasText.line {depth : Nat} {text rest : String} {s : Stmt} {ss : List Stmt}
    (hs : HasText s text) (hss : BlockHasText ss rest) :
    BlockHasText (s :: ss) (endedLines width [⟨depth, text⟩] ++ rest) := by
  have hrest : BlockHasText ss ("\n" ++ rest) := hss.gap_append isGap_newline
  have hline := BlockHasText.cons (isGap_spaces (depth * width)) hs hrest
  simpa [Line.render, String.append_assoc] using hline

/-- The lines of a block, up to the brace that closes it. A block without lines is a
gap. -/
theorem BlockHasText.inBraces {depth : Nat} {body : List Stmt}
    (h : BlockHasText body (endedLines width (blockLines (depth + 1) body))) :
    BlockHasText body ("\n" ++ endedLines width (orBlankLine (blockLines (depth + 1) body)) ++
      String.ofList (List.replicate (depth * width) ' ')) := by
  have hblock : BlockHasText body (endedLines width (orBlankLine (blockLines (depth + 1) body))) := by
    cases hlines : blockLines (depth + 1) body with
    | nil =>
        rw [hlines] at h
        simpa [orBlankLine, Line.render] using h.append_gap isGap_newline
    | cons l ls => rwa [hlines] at h
  exact (hblock.gap_append isGap_newline).append_gap (isGap_spaces _)

/-- A statement that is a header and a block, with the gaps around it. -/
theorem BlockHasText.block {depth : Nat} {header rest : String} {s : Stmt} {body ss : List Stmt}
    (hbody : BlockHasText body (endedLines width (blockLines (depth + 1) body)))
    (hs : ∀ {text}, BlockHasText body text → HasText s (header ++ " \x7b" ++ text ++ "\x7d"))
    (hss : BlockHasText ss rest) :
    BlockHasText (s :: ss) (endedLines width (openLine depth header ::
      (orBlankLine (blockLines (depth + 1) body) ++ [closeLine depth])) ++ rest) := by
  have hrest : BlockHasText ss ("\n" ++ rest) := hss.gap_append isGap_newline
  have hblock := BlockHasText.cons (isGap_spaces (depth * width)) (hs hbody.inBraces) hrest
  exact hblock.of_eq (by simp [Line.render, openLine, closeLine])

mutual

/-- The lines of a statement, before the text of other statements. -/
theorem blockHasText_lines (width depth : Nat) : (s : Stmt) → {ss : List Stmt} → {rest : String} →
    BlockHasText ss rest → BlockHasText (s :: ss) (endedLines width (lines depth s) ++ rest)
  | .assign target value, _, _, h => .line (.assign target value) h
  | .staticField name value, _, _, h => .line (.staticField name value) h
  | .update target op value, _, _, h => .line (.update target op value) h
  | .expr value, _, _, h => .line (.expr value) h
  | .returnValue (some value), _, _, h => .line (.returnValue value) h
  | .returnValue none, _, _, h => .line .returnNothing h
  | .breakLoop, _, _, h => .line .breakLoop h
  | .continueLoop, _, _, h => .line .continueLoop h
  | .empty, _, _, h => .line .empty h
  | .unsupported degradation, _, _, h => .line (.unsupported degradation) h
  | .setFlag flag, _, _, h => .line (.setFlag flag) h
  | .clearFlag flag, _, _, h => .line (.clearFlag flag) h
  | .importNote name, _, _, h => by
      have hnote := BlockHasText.note name (isGap_spaces (depth * width)) h
      simpa [lines, Line.render, String.append_assoc] using hnote
  | .loop header body, _, _, h =>
      .block (blockHasText_blockLines width (depth + 1) body) (.loop header) h
  | .ifFlag flag body, _, _, h =>
      .block (blockHasText_blockLines width (depth + 1) body)
        (fun hbody => (HasText.ifFlag flag hbody).of_eq (by simp)) h
  | .ifElse condition body alternate, _, rest, h => by
      have hbody := (blockHasText_blockLines width (depth + 1) body).inBraces
      obtain ⟨text, halternate, hlines⟩ := exists_alternateHasText width depth alternate
      have hrest : BlockHasText _ ("\n" ++ rest) := h.gap_append isGap_newline
      have hif := BlockHasText.cons (isGap_spaces (depth * width))
        (HasText.ifElse condition hbody halternate) hrest
      rw [lines, endedLines_cons, endedLines_append, hlines]
      exact hif.of_eq (by simp [Line.render, openLine])
  | .function name params body, _, _, h =>
      .block (blockHasText_blockLines width (depth + 1) body)
        (fun hbody => (HasText.function name params hbody).of_eq (by simp [parameterList])) h
  | .method name params body, _, _, h =>
      .block (blockHasText_blockLines width (depth + 1) body)
        (fun hbody => (HasText.method name params hbody).of_eq (by simp [parameterList])) h
  | .classDef name body, _, _, h =>
      .block (blockHasText_blockLines width (depth + 1) body) (.classDef name) h

/-- The lines of the rest of a conditional, from the brace that closes the block before
it. -/
theorem exists_alternateHasText (width depth : Nat) : (a : Alternate) →
    ∃ text, AlternateHasText a text ∧ endedLines width (alternateLines depth a) =
      String.ofList (List.replicate (depth * width) ' ') ++ "\x7d" ++ text ++ "\n"
  | .none => ⟨"", .none, by simp [alternateLines, closeLine, Line.render]⟩
  | .elseIf condition body alternate => by
      have hbody := (blockHasText_blockLines width (depth + 1) body).inBraces
      obtain ⟨text, halternate, hlines⟩ := exists_alternateHasText width depth alternate
      refine ⟨_, .elseIf condition hbody halternate, ?_⟩
      rw [alternateLines, endedLines_cons, endedLines_append, hlines]
      simp [← String.toList_inj, Line.render, openLine]
  | .otherwise body => by
      have hbody := (blockHasText_blockLines width (depth + 1) body).inBraces
      refine ⟨_, .otherwise hbody, ?_⟩
      simp [← String.toList_inj, alternateLines, Line.render, openLine, closeLine]

theorem blockHasText_blockLines (width depth : Nat) : (ss : List Stmt) →
    BlockHasText ss (endedLines width (blockLines depth ss))
  | [] => .nil (by simp [IsGap, blockLines])
  | s :: ss => by
      rw [blockLines, endedLines_append]
      exact blockHasText_lines width depth s (blockHasText_blockLines width depth ss)

end

/-- **Statements are written as JavaScript writes them.** The lines of statements, put
together, are a text of these statements. -/
theorem isCode_renderLines (width depth : Nat) (code : List Stmt) :
    IsCode code (renderLines width (blockLines depth code)) := by
  have hcode := blockHasText_blockLines width depth code
  rw [IsCode, ← endedLines_orBlankLine]
  cases hlines : blockLines depth code with
  | nil =>
      rw [hlines] at hcode
      simpa [orBlankLine, Line.render] using hcode.append_gap isGap_newline
  | cons l ls => rwa [hlines] at hcode

end Stmt

end Offside.Target
