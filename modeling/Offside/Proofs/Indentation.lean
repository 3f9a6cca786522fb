import Offside.Proofs.Flags
import Offside.Proofs.Inline
import Offside.Proofs.Leaves
import Offside.Proofs.Writing

/-!
# Offside.Proofs.Indentation

The width of the indentation **changes only the spaces at the start of lines**
(`generate_indentation`). The code of a program has the same lines for every width: a
line is a depth and a text, and is written with the text after as many spaces as the
depth times the width. No text of a line is empty, starts with a space or has a line end
in it, and the depth of a line is the number of blocks around it.

Blocks are told from the texts of the lines: a line opens a block if it ends in a brace,
and closes one if it starts with a brace. `Laid` follows the lines with the number of
blocks that are open; one lemma for each kind of line, and the rest is putting lines
together.
-/

namespace Offside

namespace Target

/-! ### Lines and blocks -/

/-- A line opens a block. -/
def Line.opens (l : Line) : Bool := l.text.toList.getLast? = some '\x7b'

/-- A line closes a block. -/
def Line.closes (l : Line) : Bool := l.text.toList.head? = some '\x7d'

/-- The text of a line is on one line, and not empty, and starts with no space. -/
structure Line.IsTidy (l : Line) : Prop where
  inline : IsInline l.text
  starts : ∃ c ∈ l.text.toList.head?, c ≠ ' '

/-- Every line is as deep as there are blocks around it, and all blocks are closed in the
end. The line that opens a block is outside of it, and so is the one that closes it. -/
structure IsIndented (lines : List Line) : Prop where
  depth_eq : ∀ k l, lines[k]? = some l →
    l.depth + (lines.take (k + 1)).countP Line.closes = (lines.take k).countP Line.opens
  balanced : lines.countP Line.closes = lines.countP Line.opens

theorem Line.opens_openLine (d : Nat) (header : String) : (openLine d header).opens = true := by
  simp [opens, openLine]

/-- Lines one after the other, with `n` open blocks before the first and `m` after the
last, where each line is as deep as there are open blocks. -/
inductive Laid : Nat → List Line → Nat → Prop where
  | nil {n : Nat} : Laid n [] n
  | cons {n m : Nat} {l : Line} {ls : List Line} :
      l.IsTidy → l.depth + l.closes.toNat = n → Laid (l.depth + l.opens.toNat) ls m →
      Laid n (l :: ls) m

namespace Laid

variable {n m k d : Nat} {ls ls' : List Line}

/-- What one part leaves open is what the next one starts with. -/
theorem append (h : Laid n ls m) (h' : Laid m ls' k) : Laid n (ls ++ ls') k := by
  induction h with
  | nil => exact h'
  | cons htidy hdepth _ ih => exact .cons htidy hdepth (ih h')

theorem isTidy (h : Laid n ls m) : ∀ l ∈ ls, l.IsTidy := by
  induction h with
  | nil => simp
  | cons htidy _ _ ih => exact List.forall_mem_cons.2 ⟨htidy, ih⟩

/-- The depth of a line, counted from the first line on. -/
theorem depth_add_countP (h : Laid n ls m) {k : Nat} {l : Line} (hl : ls[k]? = some l) :
    l.depth + (ls.take (k + 1)).countP Line.closes = n + (ls.take k).countP Line.opens := by
  -- The blocks that are open before the other lines are those that the first line leaves.
  induction h generalizing k with
  | nil => simp at hl
  | @cons n m first ls _ hdepth _ ih =>
      cases k with
      | zero =>
          obtain rfl : first = l := by simpa using hl
          cases hcloses : first.closes <;> simpa [hcloses] using hdepth
      | succ k =>
          have hrest := ih (by simpa using hl)
          rw [List.take_succ_cons, List.take_succ_cons, List.countP_cons, List.countP_cons]
          cases hcloses : first.closes <;> cases hopens : first.opens <;>
            simp [hcloses, hopens] at hdepth hrest ⊢ <;> omega

theorem add_countP (h : Laid n ls m) : m + ls.countP Line.closes = n + ls.countP Line.opens := by
  induction h with
  | nil => rfl
  | @cons n m first ls _ hdepth _ ih =>
      rw [List.countP_cons, List.countP_cons]
      cases hcloses : first.closes <;> cases hopens : first.opens <;>
        simp [hcloses, hopens] at hdepth ih ⊢ <;> omega

/-- **A line is as deep as blocks are open before it**, where a line that closes a
block counts as after it. -/
theorem isIndented (h : Laid 0 ls 0) : IsIndented ls where
  depth_eq k l hl := by simpa using h.depth_add_countP hl
  balanced := by simpa using h.add_countP

/-! ### Kinds of lines -/

/-- A line that opens and closes nothing. -/
theorem plain {text : String} (h : StartsLine text) (hend : text.toList.getLast? ≠ some '\x7b') :
    Laid d [⟨d, text⟩] d := by
  obtain ⟨c, hhead, hspace, hbrace⟩ := h.starts
  have hcloses : Line.closes ⟨d, text⟩ = false := by
    rw [Line.closes, Option.mem_def.1 hhead]
    simpa using hbrace
  have hopens : Line.opens ⟨d, text⟩ = false := by simpa [Line.opens] using hend
  refine .cons ⟨h.inline, c, hhead, hspace⟩ (by rw [hcloses]; rfl) ?_
  rw [hopens]
  exact .nil

/-- A line with a fixed text at its end, such as a semicolon. -/
theorem ended {text ending : String} (h : StartsLine text) (hinline : IsInline ending)
    (hending : ending.toList.getLast?.any (· ≠ '\x7b') = true) :
    Laid d [⟨d, text ++ ending⟩] d := by
  obtain ⟨c, hlast, hc⟩ := (Option.any_eq_true _ _).1 hending
  refine plain (h.append hinline) ?_
  rw [String.toList_append, List.getLast?_append, hlast]
  simpa using hc

/-- A line that opens a block. -/
theorem opening {header : String} (h : StartsLine header) :
    Laid d [openLine d header] (d + 1) := by
  obtain ⟨c, hhead, hspace, hbrace⟩ := (h.append (by decide : IsInline " \x7b")).starts
  have hcloses : (openLine d header).closes = false := by
    rw [Line.closes, openLine, Option.mem_def.1 hhead]
    simpa using hbrace
  refine .cons ⟨isInline_append.2 ⟨h.inline, by decide⟩, c, hhead, hspace⟩
    (by rw [hcloses]; rfl) ?_
  rw [Line.opens_openLine]
  exact .nil

theorem closing : Laid (d + 1) [closeLine d] d := by
  have hcloses : (closeLine d).closes = true := by simp [Line.closes, closeLine]
  have hopens : (closeLine d).opens = false := by simp [Line.opens, closeLine]
  refine .cons ⟨(by decide : IsInline "\x7d"), '\x7d', by simp [closeLine], by decide⟩
    (by rw [hcloses]; rfl) ?_
  rw [hopens]
  exact .nil

/-- The line that closes a block of a conditional and opens the next one. -/
theorem turning {header : String} (h : IsInline header)
    (hbrace : header.toList.head? = some '\x7d') : Laid (d + 1) [openLine d header] (d + 1) := by
  have hhead : (openLine d header).text.toList.head? = some '\x7d' := by simp [openLine, hbrace]
  have hcloses : (openLine d header).closes = true := by simp [Line.closes, hhead]
  have hinline : IsInline (header ++ " \x7b") := isInline_append.2 ⟨h, by decide⟩
  refine .cons ⟨hinline, '\x7d', hhead, by decide⟩ (by rw [hcloses]; rfl) ?_
  rw [Line.opens_openLine]
  exact .nil

end Laid

/-! ### Statements

Each form of statement in the code, from what its parts are.
-/

namespace Stmt

/-- The lines of a statement are laid out at every depth. -/
def IsLaid (s : Stmt) : Prop := ∀ d, Laid d (lines d s) d

/-- The rest of a conditional is laid out, from inside of the block before it. -/
def AlternateIsLaid (a : Alternate) : Prop := ∀ d, Laid (d + 1) (alternateLines d a) d

/-- Statements that are laid out are so one after the other. -/
theorem laid_blockLines {code : List Stmt} (h : ∀ s ∈ code, s.IsLaid) (d : Nat) :
    Laid d (blockLines d code) d := by
  induction code with
  | nil => exact .nil
  | cons s code ih =>
      obtain ⟨hs, hcode⟩ := List.forall_mem_cons.1 h
      exact (hs d).append (ih hcode)

theorem blockLines_ne_nil {code : List Stmt} (h : code ≠ []) (d : Nat) :
    blockLines d code ≠ [] := by
  obtain ⟨s, code, rfl⟩ := List.exists_cons_of_ne_nil h
  obtain ⟨l, ls, hs, -⟩ := s.exists_lines_cons d
  rw [blockLines, hs]
  exact List.cons_ne_nil l _

/-- Code that can stand in a block. -/
structure FillsBlock (code : List Stmt) : Prop where
  ne_nil : code ≠ []
  isLaid : ∀ s ∈ code, s.IsLaid

/-- A block between the line before it and the lines after it. -/
theorem FillsBlock.laid {code : List Stmt} (h : FillsBlock code) {n m d : Nat} {first : Line}
    {rest : List Line} (hfirst : Laid n [first] (d + 1)) (hrest : Laid (d + 1) rest m) :
    Laid n (first :: (orBlankLine (blockLines (d + 1) code) ++ rest)) m := by
  rw [orBlankLine_of_ne_nil (blockLines_ne_nil h.ne_nil (d + 1))]
  exact hfirst.append ((laid_blockLines h.isLaid (d + 1)).append hrest)

variable {body : List Stmt} {flag : String}

/-- A loop with a body. -/
theorem isLaid_loop {header : LoopHeader} (hheader : StartsLine header.render)
    (hbody : FillsBlock body) : (loop header body).IsLaid :=
  fun _ => hbody.laid (.opening hheader) .closing

theorem isLaid_ifFlag (hflag : IsInline flag) (hbody : FillsBlock body) :
    (ifFlag flag body).IsLaid :=
  fun _ => hbody.laid (.opening (.between hflag (by decide) (by decide))) .closing

theorem isLaid_setFlag (hflag : IsInline flag) : (setFlag flag).IsLaid :=
  fun _ => .ended ((by decide : StartsLine "let ").append hflag) (by decide) (by decide)

/-- A loop with its `else` block is laid out. A flag is there only if the block is. -/
theorem fillsBlock_completed {flag : Option String} (hflag : ∀ f ∈ flag, StartsLine f)
    {header : LoopHeader} (hheader : StartsLine header.render) (hbody : FillsBlock body)
    {orelse : List Stmt} (horelse : ∀ s ∈ orelse, s.IsLaid) (hne : flag ≠ none → orelse ≠ []) :
    FillsBlock (completed flag header body orelse) := by
  cases flag with
  | none => exact ⟨by simp [completed], List.forall_mem_cons.2 ⟨isLaid_loop hheader hbody, horelse⟩⟩
  | some f =>
      have hf := hflag f rfl
      refine ⟨by simp [completed], ?_⟩
      simp only [completed, List.forall_mem_cons]
      exact ⟨isLaid_setFlag hf.inline, isLaid_loop hheader hbody,
        isLaid_ifFlag hf.inline ⟨hne (by simp), horelse⟩, by simp⟩

end Stmt

end Target

/-! ### Loop headers -/

theorem startsLine_counted {target start stop : Target.Expr} (htarget : IsInline target.render)
    (hstart : IsInline start.render) (hstop : IsInline stop.render) {amount : String}
    (hamount : IsInline amount) (descending : Bool) :
    StartsLine (Target.LoopHeader.counted target start stop descending amount).render := by
  have hopening : StartsLine "for (var " := by decide
  have hmark : IsInline "; " := by decide
  have htest : IsInline (if descending then " > " else " < ") := by cases descending <;> decide
  have hupdate : IsInline (if descending then " -= " else " += ") := by
    cases descending <;> decide
  have hbegin := ((hopening.append htarget).append (by decide : IsInline " = ")).append hstart
  have hchecked := (((hbegin.append hmark).append htarget).append htest).append hstop
  have hchanged := (((hchecked.append hmark).append htarget).append hupdate).append hamount
  exact hchanged.append (by decide)

/-- The header of a counted loop is on one line, with its step written without blanks. -/
theorem startsLine_countedHeader {target start stop step : Target.Expr}
    (htarget : IsInline target.render) (hstart : IsInline start.render)
    (hstop : IsInline stop.render) (hstep : IsInline step.render) :
    StartsLine (countedHeader target start stop step).render := by
  have hamount {amount : List Char} (h : amount ⊆ (Text.withoutBlanks step.render).toList) :
      IsInline (String.ofList amount) := by
    intro hmem
    rw [String.toList_ofList] at hmem
    have hfiltered := h hmem
    rw [Text.withoutBlanks, String.toList_ofList] at hfiltered
    exact hstep (List.mem_of_mem_filter hfiltered)
  unfold countedHeader
  split
  · rename_i amount htext
    exact startsLine_counted htarget hstart hstop (hamount (by simp [htext])) true
  · exact startsLine_counted htarget hstart hstop (hamount fun _ h => h) false

/-- A loop has a header that can start a line, or a comment on one line. -/
theorem loopHeader_inline {target iter : Expr} (htarget : target.IsLexical)
    (hiter : iter.IsLexical) :
    (∃ header, loopHeader target iter = .ok header ∧ StartsLine header.render) ∨
    ∃ degradation, loopHeader target iter = .error degradation ∧ IsInline degradation.detail := by
  have htarget' := (target.startsLine_toCode htarget).inline
  have hwhole (n : Nat) : IsInline (Target.Expr.ofNat n).render := (startsLine_number _).inline
  by_cases hrange : ∃ args, iter = .call (.ident "range") args
  · obtain ⟨args, rfl⟩ := hrange
    have hargs := Expr.areLexical_iff.1 hiter.2
    have hinline (e : Expr) (he : e ∈ args) := (e.startsLine_toCode (hargs e he)).inline
    match args with
    | [stop] => exact .inl ⟨_, rfl, startsLine_countedHeader htarget' (hwhole 0)
        (hinline stop (by simp)) (hwhole 1)⟩
    | [start, stop] => exact .inl ⟨_, rfl, startsLine_countedHeader htarget'
        (hinline start (by simp)) (hinline stop (by simp)) (hwhole 1)⟩
    | [start, stop, step] => exact .inl ⟨_, rfl, startsLine_countedHeader htarget'
        (hinline start (by simp)) (hinline stop (by simp)) (hinline step (by simp))⟩
    | [] => exact .inr ⟨_, rfl, by decide⟩
    | a :: b :: c :: d :: more =>
        have hdetail : StartsLine ("range arguments (" ++
            toString (Expr.lowerAll (a :: b :: c :: d :: more)).length ++ " given)") :=
          .between (isInline_toString _) (by decide) (by decide)
        exact .inr ⟨_, rfl, hdetail.inline⟩
  · refine .inl ⟨_, loopHeader_of_ne_range (by simpa using hrange) target, ?_⟩
    have hiter' := (iter.startsLine_toCode hiter).inline
    have hopening : StartsLine "for (var " := by decide
    have hdeclared := (hopening.append htarget').append (by decide : IsInline " of ")
    exact (hdeclared.append hiter').append (by decide)

/-! ### Lowered statements

Nothing is left out in lowering, so no block becomes empty.
-/

/-- The flag of the loop around a statement can start a line. -/
def Scope.IsTidy (scope : Scope) : Prop := ∀ f ∈ scope.flag, StartsLine f

theorem Scope.isTidy_of_flag {scope : Scope} (h : scope.flag = none) : scope.IsTidy := by
  simp [IsTidy, h]

theorem startsLine_flagName (n : Nat) : StartsLine (flagName n) :=
  (by decide : StartsLine "_loop_completed_").append (isInline_toString n)

namespace Stmt

open Target.Stmt (FillsBlock IsLaid AlternateIsLaid)

/-- Code that takes the place of statements is laid out, and there is some if there are
statements. -/
structure Replaces (ss : List Stmt) (code : List Target.Stmt) : Prop where
  ne_nil : ss ≠ [] → code ≠ []
  isLaid : ∀ t ∈ code, t.IsLaid

/-- A loop has a flag only if it has an `else` block. -/
theorem loopFlag_run (body orelse : List Stmt) (n : Nat) :
    Scope.IsTidy (.loopBody ((loopFlag body orelse).run n).1) ∧
      (((loopFlag body orelse).run n).1 ≠ none → orelse ≠ []) := by
  cases hflag : needsFlag body orelse with
  | true =>
      have hchoice : loopFlag body orelse = some <$> newFlag := if_pos hflag
      rw [hchoice]
      refine ⟨?_, fun _ => ?_⟩
      · rintro f ⟨⟩
        exact startsLine_flagName (n + 1)
      · rintro rfl
        cases hflag
  | false =>
      have hchoice : loopFlag body orelse = pure none := if_neg (Bool.eq_false_iff.1 hflag)
      rw [hchoice]
      exact ⟨Scope.isTidy_of_flag rfl, fun hsome => absurd rfl hsome⟩

/-- A loop is laid out if its blocks are. -/
theorem fillsBlock_lowerLoop {scope : Scope} {header : Target.LoopHeader}
    (hheader : StartsLine header.render) {body orelse : List Stmt}
    (hbody : ∀ scope : Scope, scope.IsTidy → ∀ n, FillsBlock ((lowerBlock scope body).run n).1)
    (horelse : ∀ n, Replaces orelse ((lowerBlock scope.branch orelse).run n).1) (n : Nat) :
    FillsBlock ((lowerLoop scope header body orelse).run n).1 := by
  obtain ⟨htidy, hne⟩ := loopFlag_run body orelse n
  let flag := (loopFlag body orelse).run n
  let inner := (lowerBlock (.loopBody flag.1) body).run flag.2
  let after := (lowerBlock scope.branch orelse).run inner.2
  show FillsBlock (completed flag.1 header inner.1 after.1)
  exact Target.Stmt.fillsBlock_completed htidy hheader (hbody _ htidy _) (horelse _).isLaid
    fun hsome => (horelse _).ne_nil (hne hsome)

theorem fillsBlock_singleton {t : Target.Stmt} (h : t.IsLaid) : FillsBlock [t] :=
  ⟨List.cons_ne_nil t [], by simpa using h⟩

theorem isLaid_lowerAssign (scope : Scope) {target value : Expr} (htarget : target.IsLexical)
    (hvalue : value.IsLexical) : (lowerAssign scope target value).IsLaid := by
  have htarget' := target.startsLine_toCode htarget
  have hvalue' := (value.startsLine_toCode hvalue).inline
  have hequals : IsInline " = " := by decide
  unfold lowerAssign
  split
  · have hstatic := (by decide : StartsLine "static ").append htarget'.inline
    exact fun _ => .ended ((hstatic.append hequals).append hvalue') (by decide) (by decide)
  · exact fun _ => .ended ((htarget'.append hequals).append hvalue') (by decide) (by decide)

/-- A module is named in a comment, in which it must not end the line. -/
theorem isLaid_importNote {path : List String}
    (h : ∀ part ∈ path, Lexeme.isWord part.toList = true) :
    (Target.Stmt.importNote (dottedName path)).IsLaid := by
  have hchars : ∀ c ∈ (dottedName path).toList, (Lexeme.isWordPart c || c = '.') = true := by
    refine forall_mem_intercalate (List.all_eq_true.1 (by decide)) fun part hpart c hc => ?_
    rw [Lexeme.isWordPart_of_isWord (h part hpart) c hc, Bool.true_or]
  have hinline : IsInline (dottedName path) := fun hmem => absurd (hchars _ hmem) (by decide)
  refine fun _ => .plain ((by decide : StartsLine "// import ").append hinline) fun hlast => ?_
  have hmem := List.mem_of_getLast? hlast
  rw [String.toList_append] at hmem
  rcases List.mem_append.1 hmem with hfixed | hname
  · exact absurd hfixed (by decide)
  · exact absurd (hchars _ hname) (by decide)

theorem isInline_parameterList {params : List String}
    (h : ∀ param ∈ params, Lexeme.isWord param.toList = true) :
    IsInline (Target.parameterList params) := by
  have hparams := isInline_intercalate (by decide : IsInline ", ") fun param hparam =>
    (StartsLine.of_isWord (h param hparam)).inline
  have hlist : StartsLine (Target.parameterList params) :=
    .between hparams (by decide) (by decide)
  exact hlist.inline

/-- A function is laid out as a function or as a method. -/
theorem isLaid_function {name : String} (hname : Lexeme.isWord name.toList = true)
    {params : List String} (hparams : ∀ param ∈ params, Lexeme.isWord param.toList = true)
    {body : List Target.Stmt} (hbody : FillsBlock body) (inClass : Bool) :
    (if inClass then Target.Stmt.method name params body
      else Target.Stmt.function name params body).IsLaid := by
  have hname' := StartsLine.of_isWord hname
  have hparams' := isInline_parameterList hparams
  have hfunction := (by decide : StartsLine "function ").append hname'.inline
  cases inClass with
  | true => exact fun _ => hbody.laid (.opening (hname'.append hparams')) .closing
  | false => exact fun _ => hbody.laid (.opening (hfunction.append hparams')) .closing

theorem Replaces.fillsBlock {ss : List Stmt} {code : List Target.Stmt} (h : Replaces ss code)
    (hne : ss ≠ []) : FillsBlock code :=
  ⟨h.ne_nil hne, h.isLaid⟩

mutual

/-- **The code of a statement is laid out, and there is some.** By recursion over
the statement, for every numbering of flags. -/
theorem fillsBlock_lower (scope : Scope) (hscope : scope.IsTidy) (n : Nat) :
    (s : Stmt) → s.IsLexical → FillsBlock ((s.lower scope).run n).1
  | .assign target value, h => fillsBlock_singleton (isLaid_lowerAssign scope h.1 h.2)
  | .augAssign target op value, h => by
      have htarget := (target.startsLine_toCode h.1).append (by decide : IsInline " ")
      have hop := (htarget.append (isInline_symbol op.lower)).append (by decide : IsInline "= ")
      have htext := hop.append (value.startsLine_toCode h.2).inline
      exact fillsBlock_singleton fun _ => .ended htext (by decide) (by decide)
  | .expr value, h =>
      fillsBlock_singleton fun _ => .ended (value.startsLine_toCode h) (by decide) (by decide)
  | .returnValue none, _ => fillsBlock_singleton fun _ => .plain (by decide) (by decide)
  | .returnValue (some value), h => by
      have htext := (by decide : StartsLine "return ").append (value.startsLine_toCode h).inline
      exact fillsBlock_singleton fun _ => .ended htext (by decide) (by decide)
  | .importModule path, h => fillsBlock_singleton (isLaid_importNote h)
  | .continueLoop, _ => fillsBlock_singleton fun _ => .plain (by decide) (by decide)
  | .pass, _ => fillsBlock_singleton fun _ => .plain (by decide) (by decide)
  | .breakLoop, _ => by
      -- Inside a loop with a flag, a `break` has two lines.
      have hbreak : Target.Stmt.breakLoop.IsLaid := fun _ => .plain (by decide) (by decide)
      rw [lower]
      cases hflag : scope.flag with
      | none => exact fillsBlock_singleton hbreak
      | some flag =>
          have hclear : (Target.Stmt.clearFlag flag).IsLaid := fun _ =>
            .ended (hscope flag hflag) (by decide) (by decide)
          exact ⟨by simp, List.forall_mem_cons.2 ⟨hclear, by simpa using hbreak⟩⟩
  | .functionDef name params body, h => by
      obtain ⟨hname, hparams, hbody⟩ := h
      obtain ⟨hne, hblock⟩ := bodyIsLexical_iff.1 hbody
      have hcode := replaces_lowerBlock .top (Scope.isTidy_of_flag rfl) n body hblock
      exact fillsBlock_singleton (isLaid_function hname hparams (hcode.fillsBlock hne) _)
  | .classDef name body, h => by
      obtain ⟨hname, hbody⟩ := h
      obtain ⟨hne, hblock⟩ := bodyIsLexical_iff.1 hbody
      have hcode := replaces_lowerBlock .classBody (Scope.isTidy_of_flag rfl) n body hblock
      have hheader := (by decide : StartsLine "class ").append (StartsLine.of_isWord hname).inline
      exact fillsBlock_singleton fun _ => (hcode.fillsBlock hne).laid (.opening hheader) .closing
  | .ifElse condition body alternate, h => by
      obtain ⟨hcondition, hbody, halternate⟩ := h
      obtain ⟨hne, hblock⟩ := bodyIsLexical_iff.1 hbody
      have hcode := replaces_lowerBlock scope.branch hscope n body hblock
      have hrest := alternateIsLaid_lower scope.branch hscope
        ((lowerBlock scope.branch body).run n).2 alternate halternate
      have hheader : StartsLine ("if (" ++ condition.toCode ++ ")") :=
        .between (condition.startsLine_toCode hcondition).inline (by decide) (by decide)
      exact fillsBlock_singleton fun d =>
        (hcode.fillsBlock hne).laid (.opening hheader) (hrest d)
  | .whileLoop condition body orelse, h => by
      obtain ⟨hcondition, hbody, horelse⟩ := h
      obtain ⟨hne, hblock⟩ := bodyIsLexical_iff.1 hbody
      have hheader : StartsLine (Target.LoopHeader.whileTrue condition.lower).render :=
        .between (condition.startsLine_toCode hcondition).inline (by decide) (by decide)
      exact fillsBlock_lowerLoop hheader
        (fun _ hscope' n => (replaces_lowerBlock _ hscope' n body hblock).fillsBlock hne)
        (fun n => replaces_lowerBlock scope.branch hscope n orelse horelse) n
  | .forLoop target iter body orelse, h => by
      obtain ⟨htarget, hiter, hbody, horelse⟩ := h
      obtain ⟨hne, hblock⟩ := bodyIsLexical_iff.1 hbody
      rw [lower]
      rcases loopHeader_inline htarget hiter with
        ⟨header, hok, hheader⟩ | ⟨degradation, herror, hdetail⟩
      · rw [hok]
        exact fillsBlock_lowerLoop hheader
          (fun _ hscope' n => (replaces_lowerBlock _ hscope' n body hblock).fillsBlock hne)
          (fun n => replaces_lowerBlock scope.branch hscope n orelse horelse) n
      · rw [herror]
        have htext := (by decide : StartsLine "/* Unsupported ").append hdetail
        exact fillsBlock_singleton fun _ => .ended htext (by decide) (by decide)

theorem alternateIsLaid_lower (scope : Scope) (hscope : scope.IsTidy) (n : Nat) :
    (a : Alternate) → AlternateIsLexical a → AlternateIsLaid ((lowerAlternate scope a).run n).1
  | .none, _ => fun _ => .closing
  | .elseIf condition body alternate, h => by
      obtain ⟨hcondition, hbody, halternate⟩ := h
      obtain ⟨hne, hblock⟩ := bodyIsLexical_iff.1 hbody
      have hcode := replaces_lowerBlock scope hscope n body hblock
      have hrest := alternateIsLaid_lower scope hscope ((lowerBlock scope body).run n).2 alternate
        halternate
      have hheader : IsInline ("\x7d else if (" ++ condition.toCode ++ ")") := by
        have hcode := (condition.startsLine_toCode hcondition).inline
        exact isInline_append.2 ⟨isInline_append.2 ⟨by decide, hcode⟩, by decide⟩
      exact fun d => (hcode.fillsBlock hne).laid (.turning hheader (by simp)) (hrest d)
  -- An `else` block without statements has no line of its own.
  | .otherwise [], _ => fun _ => .closing
  | .otherwise (s :: ss), h => by
      have hcode := replaces_lowerBlock scope hscope n (s :: ss) h
      have hinner := hcode.fillsBlock (List.cons_ne_nil s ss)
      exact fun _ => hinner.laid (.turning (by decide) (by decide)) .closing

theorem replaces_lowerBlock (scope : Scope) (hscope : scope.IsTidy) (n : Nat) :
    (ss : List Stmt) → BlockIsLexical ss → Replaces ss ((lowerBlock scope ss).run n).1
  | [], _ => ⟨fun h => absurd rfl h, fun _ ht => by cases ht⟩
  | s :: ss, h => by
      have hfirst := fillsBlock_lower scope hscope n s h.1
      have hrest := replaces_lowerBlock scope hscope ((s.lower scope).run n).2 ss h.2
      have hrun : ((lowerBlock scope (s :: ss)).run n).1 =
          ((s.lower scope).run n).1 ++
            ((lowerBlock scope ss).run ((s.lower scope).run n).2).1 := rfl
      rw [hrun]
      exact ⟨fun _ => List.append_ne_nil_of_left_ne_nil hfirst.ne_nil _,
        List.forall_mem_append.2 ⟨hfirst.isLaid, hrest.isLaid⟩⟩

end

end Stmt

/-! ### Programs -/

namespace Target

/-- A tidy line is one line. -/
theorem Line.newline_notMem_render {l : Line} (h : l.IsTidy) (width : Nat) :
    '\n' ∉ (l.render width).toList := by
  have hinline : '\n' ∉ l.text.toList := h.inline
  simp [render, hinline]

/-- The lines of a text are those that it was put together from. -/
theorem splitOn_renderLines {lines : List Line} (hne : lines ≠ []) (h : ∀ l ∈ lines, l.IsTidy)
    (width : Nat) :
    ((renderLines width lines).toList.splitOn '\n').map String.ofList =
      lines.map (Line.render width) := by
  have hlines : ∀ cs ∈ (lines.map (Line.render width)).map String.toList, '\n' ∉ cs := by
    simp only [List.mem_map, forall_exists_index, and_imp, forall_apply_eq_imp_iff₂]
    exact fun l hl => l.newline_notMem_render (h l hl) width
  have hsep : "\n".toList = ['\n'] := rfl
  rw [renderLines, String.toList_intercalate, hsep, List.splitOn_intercalate _ hlines (by simpa)]
  simp

end Target

/-- **The width of the indentation changes only spaces.** A program that is read from a
source has the same lines and the same degradations for every width. A line is written
with `width` spaces for each block around it, and then its text, which is not empty and
starts with no space. -/
theorem generate_indentation {source : String} {p : Program} (h : Program.parse source = .ok p)
    (hne : p.statements ≠ []) (hcheck : p.checkLiterals = .ok ()) :
    ∃ (lines : List Target.Line) (degradations : List Target.Degradation),
      (∀ width, ∃ output, p.generate width = .ok output ∧ output.degradations = degradations ∧
        (output.code.toList.splitOn '\n').map String.ofList = lines.map fun l =>
          String.ofList (List.replicate (l.depth * width) ' ') ++ l.text) ∧
      (∀ l ∈ lines, ∃ c ∈ l.text.toList.head?, c ≠ ' ') ∧
      Target.IsIndented lines := by
  have hcode := Stmt.replaces_lowerBlock .top (Scope.isTidy_of_flag rfl) 0 p.statements
    (Program.isLexical_of_parse h)
  have hlaid := Target.Stmt.laid_blockLines hcode.isLaid 0
  have hlines := Target.Stmt.blockLines_ne_nil (hcode.ne_nil hne) 0
  refine ⟨_, _, fun width => ⟨_, Program.generate_eq hcheck width, rfl, ?_⟩, ?_, hlaid.isIndented⟩
  · exact Target.splitOn_renderLines hlines hlaid.isTidy width
  · exact fun l hl => (hlaid.isTidy l hl).starts

/-- A loop with a flag in a function, with a line end in a string. -/
def searchingSource : String :=
  "def f(a):\n    while a:\n        if a == '\\n':\n            break\n" ++
    "    else:\n        a = f'\\n\x7ba\x7d'\n"

theorem generate_searchingSource :
    ∃ p, Program.parse searchingSource = .ok p ∧ p.statements ≠ [] ∧ p.checkLiterals = .ok () ∧
      (p.generate 1).map (·.code) = .ok ("function f(a) \x7b\n let _loop_completed_1 = true;\n" ++
        " while (a) \x7b\n  if (a == \"\\n\") \x7b\n   _loop_completed_1 = false;\n   break;\n" ++
        "  \x7d\n \x7d\n if (_loop_completed_1) \x7b\n  a = \x60\\n$\x7ba\x7d\x60;\n \x7d\n\x7d") ∧
      ∃ (lines : List Target.Line) (degradations : List Target.Degradation),
        (∀ width, ∃ output, p.generate width = .ok output ∧ output.degradations = degradations ∧
          (output.code.toList.splitOn '\n').map String.ofList = lines.map fun l =>
            String.ofList (List.replicate (l.depth * width) ' ') ++ l.text) ∧
        (∀ l ∈ lines, ∃ c ∈ l.text.toList.head?, c ≠ ' ') ∧
        Target.IsIndented lines := by
  have hparse : Program.parse searchingSource = .ok ⟨[.functionDef "f" ["a"]
      [.whileLoop (.ident "a")
        [.ifElse (.binary (.ident "a") .eq (.literal (.string "\n")) 3) [.breakLoop] .none]
        [.assign (.ident "a") (.fstring ["\n", ""] [.ident "a"])]]]⟩ :=
    Program.parse_eq_ok (by decide +kernel)
  refine ⟨_, hparse, by simp, by decide +kernel, by decide +kernel, ?_⟩
  exact generate_indentation hparse (by simp) (by decide +kernel)

end Offside
