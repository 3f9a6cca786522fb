import Offside.Proofs.Lines
import Offside.Writer

/-!
# Offside.Proofs.Writing

Code is written **statement by statement**. The code of two lists of statements,
one after the other, is the code of the first and then that of the second, where
the numbering of flags goes on (`Writer.program_append`). The lines of a program
leave no trace in its code (`Writer.program_mapLines`), and which constructs have
no counterpart depends on the program alone (`Stmt.blockDegradations_lowerBlock`).
-/

namespace Offside

/-! ### Lines leave no trace in expressions

Lowering an expression drops the lines of its operations. So it is with everything
that lowering asks about an expression on the way.
-/

namespace Expr

variable (f : Nat → Nat)

@[simp] theorem needsParensAsBase_mapLines (e : Expr) :
    (e.mapLines f).needsParensAsBase = e.needsParensAsBase := by
  cases e with
  | binary _ op _ _ => cases op <;> rfl
  | _ => rfl

mutual

theorem lower_mapLines (e : Expr) : (e.mapLines f).lower = e.lower := by
  match e with
  | .ident _ | .literal _ => rfl
  | .fstring _ es => simp only [mapLines, lower, lowerAll_mapLinesAll es]
  | .binary left _ right _ =>
      simp only [mapLines, lower, needsParensAsBase_mapLines, lower_mapLines left,
        lower_mapLines right]
  | .unary op operand => cases op <;> simp only [mapLines, lower, lower_mapLines operand]
  | .attr value _ => simp only [mapLines, lower, lower_mapLines value]
  | .call callee args =>
      simp only [mapLines, lower, lower_mapLines callee, lowerAll_mapLinesAll args]
  | .index target position =>
      simp only [mapLines, lower, lower_mapLines target, lower_mapLines position]
  | .list items => simp only [mapLines, lower, lowerAll_mapLinesAll items]
  | .group inner => simp only [mapLines, lower, lower_mapLines inner]

theorem lowerAll_mapLinesAll (es : List Expr) : lowerAll (mapLinesAll f es) = lowerAll es := by
  match es with
  | [] => rfl
  | e :: es => simp only [mapLinesAll, lowerAll, lower_mapLines e, lowerAll_mapLinesAll es]

end

end Expr

/-- Other lines make a name of nothing that was none. -/
theorem Expr.mapLines_eq_ident {f : Nat → Nat} {e : Expr} {name : String}
    (h : e.mapLines f = .ident name) : e = .ident name := by
  cases e with
  | ident _ => exact h
  | _ => cases h

/-- Other lines make a call of `range` of nothing that was none. -/
theorem Expr.mapLines_eq_range {f : Nat → Nat} {e : Expr} {args : List Expr}
    (h : e.mapLines f = .call (.ident "range") args) : ∃ args', e = .call (.ident "range") args' := by
  cases e with
  | call callee args' =>
      obtain ⟨hcallee, -⟩ := Expr.call.inj h
      exact ⟨args', by rw [mapLines_eq_ident hcallee]⟩
  | _ => cases h

/-- A loop over anything but a call of `range` goes through its elements. -/
theorem loopHeader_of_ne_range {iter : Expr} (h : ∀ args, iter ≠ .call (.ident "range") args)
    (target : Expr) : loopHeader target iter = .ok (.each target.lower iter.lower) := by
  unfold loopHeader
  split
  · exact absurd rfl (h _)
  · rfl

/-- The header of a loop is the same on other lines. -/
theorem loopHeader_mapLines (f : Nat → Nat) (target iter : Expr) :
    loopHeader (target.mapLines f) (iter.mapLines f) = loopHeader target iter := by
  by_cases hrange : ∃ args, iter = .call (.ident "range") args
  · obtain ⟨args, rfl⟩ := hrange
    simp only [Expr.mapLines, loopHeader, Expr.lower_mapLines, Expr.lowerAll_mapLinesAll]
  · have hiter : ∀ args, iter ≠ .call (.ident "range") args := by simpa using hrange
    have hmapped : ∀ args, iter.mapLines f ≠ .call (.ident "range") args := by
      intro args hargs
      obtain ⟨args', rfl⟩ := Expr.mapLines_eq_range hargs
      exact hiter args' rfl
    rw [loopHeader_of_ne_range hiter, loopHeader_of_ne_range hmapped, Expr.lower_mapLines,
      Expr.lower_mapLines]

/-! ### Lines leave no trace in statements

Statements have no lines of their own. What is left to see is that flags are chosen in
the same places.
-/

namespace Stmt

variable (f : Nat → Nat)

@[simp] theorem isEmpty_mapBlockLines (ss : List Stmt) :
    (mapBlockLines f ss).isEmpty = ss.isEmpty := by
  cases ss <;> rfl

mutual

/-- Whether a loop is left by `break` is the same on other lines. -/
theorem hasBreak_mapLines (s : Stmt) : (s.mapLines f).hasBreak = s.hasBreak := by
  match s with
  | .assign _ _ | .augAssign _ _ _ | .expr _ | .returnValue _ | .functionDef _ _ _
  | .classDef _ _ | .importModule _ | .breakLoop | .continueLoop | .pass => rfl
  | .ifElse _ body alternate =>
      simp only [mapLines, hasBreak, blockHasBreak_mapLines body,
        alternateHasBreak_mapLines alternate]
  | .whileLoop _ body orelse | .forLoop _ _ body orelse =>
      simp only [mapLines, hasBreak, blockHasBreak_mapLines body, blockHasBreak_mapLines orelse]

theorem alternateHasBreak_mapLines (a : Alternate) :
    alternateHasBreak (mapAlternateLines f a) = alternateHasBreak a := by
  match a with
  | .none => rfl
  | .elseIf _ body alternate =>
      simp only [mapAlternateLines, alternateHasBreak, blockHasBreak_mapLines body,
        alternateHasBreak_mapLines alternate]
  | .otherwise body => simp only [mapAlternateLines, alternateHasBreak, blockHasBreak_mapLines body]

theorem blockHasBreak_mapLines (ss : List Stmt) :
    blockHasBreak (mapBlockLines f ss) = blockHasBreak ss := by
  match ss with
  | [] => rfl
  | s :: ss =>
      simp only [mapBlockLines, blockHasBreak, hasBreak_mapLines s, blockHasBreak_mapLines ss]

end

/-- Whether a loop takes a flag, and which, is the same on other lines. -/
theorem loopFlag_mapLines (body orelse : List Stmt) :
    loopFlag (mapBlockLines f body) (mapBlockLines f orelse) = loopFlag body orelse := by
  rw [loopFlag, loopFlag, isEmpty_mapBlockLines, blockHasBreak_mapLines]

/-- How an assignment is written depends on the scope and the shape of its target,
neither of which has a line. -/
theorem lowerAssign_mapLines (scope : Scope) (target value : Expr) :
    lowerAssign scope (target.mapLines f) (value.mapLines f) = lowerAssign scope target value := by
  unfold lowerAssign
  rw [Expr.lower_mapLines, Expr.lower_mapLines]
  cases scope.inClass with
  | false => rfl
  | true => cases target <;> rfl

mutual

theorem lower_mapLines (scope : Scope) (s : Stmt) : lower scope (s.mapLines f) = lower scope s := by
  match s with
  | .assign _ _ => simp only [mapLines, lower, lowerAssign_mapLines]
  | .augAssign _ _ _ | .expr _ => simp only [mapLines, lower, Expr.lower_mapLines]
  | .returnValue none | .importModule _ | .breakLoop | .continueLoop | .pass => rfl
  | .returnValue (some _) => simp only [mapLines, lower, Option.map_some, Expr.lower_mapLines]
  | .functionDef _ _ body | .classDef _ body =>
      simp only [mapLines, lower, lowerBlock_mapLines _ body]
  | .ifElse _ body alternate =>
      simp only [mapLines, lower, Expr.lower_mapLines, lowerBlock_mapLines _ body,
        lowerAlternate_mapLines _ alternate]
  | .whileLoop _ body orelse =>
      simp only [mapLines, lower, Expr.lower_mapLines, loopFlag_mapLines,
        lowerBlock_mapLines _ body, lowerBlock_mapLines _ orelse]
  | .forLoop target iter body orelse =>
      simp only [mapLines, lower, loopHeader_mapLines, loopFlag_mapLines,
        lowerBlock_mapLines _ body, lowerBlock_mapLines _ orelse]

theorem lowerAlternate_mapLines (scope : Scope) (a : Alternate) :
    lowerAlternate scope (mapAlternateLines f a) = lowerAlternate scope a := by
  match a with
  | .none => rfl
  | .elseIf _ body alternate =>
      simp only [mapAlternateLines, lowerAlternate, Expr.lower_mapLines,
        lowerBlock_mapLines _ body, lowerAlternate_mapLines _ alternate]
  | .otherwise body =>
      simp only [mapAlternateLines, lowerAlternate, lowerBlock_mapLines _ body,
        isEmpty_mapBlockLines]

theorem lowerBlock_mapLines (scope : Scope) (ss : List Stmt) :
    lowerBlock scope (mapBlockLines f ss) = lowerBlock scope ss := by
  match ss with
  | [] => rfl
  | s :: ss =>
      simp only [mapBlockLines, lowerBlock, lower_mapLines _ s, lowerBlock_mapLines _ ss]

end

end Stmt

/-! ### Checks do not depend on lines

A failed check does name a line, so what is shown is that the same programs pass.
-/

/-- A check followed by another one passes exactly if both do. -/
theorem andThen_eq_ok {first second : Except Failure Unit} :
    (do first; second) = .ok () ↔ first = .ok () ∧ second = .ok () := by
  cases first with
  | error failure => exact ⟨fun h => (by cases h), fun h => (by cases h.1)⟩
  | ok u => exact ⟨fun h => ⟨rfl, h⟩, fun h => h.2⟩

namespace Expr

variable (f : Nat → Nat)

theorem isZeroLiteral_mapLines (e : Expr) : (e.mapLines f).isZeroLiteral = e.isZeroLiteral := by
  cases e <;> rfl

theorem areStringAndNumber_mapLines (left right : Expr) :
    areStringAndNumber (left.mapLines f) (right.mapLines f) = areStringAndNumber left right := by
  have hkind (e : Expr) : (e.mapLines f).literalKind? = e.literalKind? := by cases e <;> rfl
  rw [areStringAndNumber, areStringAndNumber, hkind, hkind]

/-- Whether an operation is faulty depends on its operands alone. The line is only
in the failure, so the two failures are not compared. -/
theorem fault?_mapLines (left : Expr) (op : BinaryOp) (right : Expr) (line line' : Nat) :
    fault? (left.mapLines f) op (right.mapLines f) line' = none ↔
      fault? left op right line = none := by
  cases op <;> simp [fault?, areStringAndNumber_mapLines, isZeroLiteral_mapLines]

/-- An operation passes the check exactly if it is not faulty and its operands pass. -/
theorem checkLiterals_binary {left right : Expr} {op : BinaryOp} {line : Nat} :
    (binary left op right line).checkLiterals = .ok () ↔
      fault? left op right line = none ∧ left.checkLiterals = .ok () ∧
        right.checkLiterals = .ok () := by
  rw [checkLiterals]
  cases fault? left op right line with
  | none => exact ⟨fun h => ⟨rfl, andThen_eq_ok.1 h⟩, fun h => andThen_eq_ok.2 h.2⟩
  | some failure => exact ⟨fun h => (by cases h), fun h => (by cases h.1)⟩

mutual

theorem checkLiterals_mapLines (e : Expr) :
    (e.mapLines f).checkLiterals = .ok () ↔ e.checkLiterals = .ok () := by
  match e with
  | .ident _ | .literal _ => rfl
  | .fstring _ es => simp only [mapLines, checkLiterals, checkAllLiterals_mapLines es]
  | .binary left op right line =>
      simp only [mapLines, checkLiterals_binary, fault?_mapLines f left op right line,
        checkLiterals_mapLines left, checkLiterals_mapLines right]
  | .unary _ operand => simp only [mapLines, checkLiterals, checkLiterals_mapLines operand]
  | .attr value _ => simp only [mapLines, checkLiterals, checkLiterals_mapLines value]
  | .call callee args =>
      simp only [mapLines, checkLiterals, andThen_eq_ok, checkLiterals_mapLines callee,
        checkAllLiterals_mapLines args]
  | .index target position =>
      simp only [mapLines, checkLiterals, andThen_eq_ok, checkLiterals_mapLines target,
        checkLiterals_mapLines position]
  | .list items => simp only [mapLines, checkLiterals, checkAllLiterals_mapLines items]
  | .group inner => simp only [mapLines, checkLiterals, checkLiterals_mapLines inner]

theorem checkAllLiterals_mapLines (es : List Expr) :
    checkAllLiterals (mapLinesAll f es) = .ok () ↔ checkAllLiterals es = .ok () := by
  match es with
  | [] => rfl
  | e :: es =>
      simp only [mapLinesAll, checkAllLiterals, andThen_eq_ok, checkLiterals_mapLines e,
        checkAllLiterals_mapLines es]

end

end Expr

namespace Stmt

variable (f : Nat → Nat)

mutual

theorem checkLiterals_mapLines (s : Stmt) :
    (s.mapLines f).checkLiterals = .ok () ↔ s.checkLiterals = .ok () := by
  match s with
  | .assign _ _ | .augAssign _ _ _ =>
      simp only [mapLines, checkLiterals, andThen_eq_ok, Expr.checkLiterals_mapLines]
  | .expr _ => simp only [mapLines, checkLiterals, Expr.checkLiterals_mapLines]
  | .returnValue (some _) =>
      simp only [mapLines, Option.map_some, checkLiterals, Expr.checkLiterals_mapLines]
  | .returnValue none | .importModule _ | .breakLoop | .continueLoop | .pass => rfl
  | .functionDef _ _ body | .classDef _ body =>
      simp only [mapLines, checkLiterals, checkBlockLiterals_mapLines body]
  | .ifElse _ body alternate =>
      simp only [mapLines, checkLiterals, andThen_eq_ok, Expr.checkLiterals_mapLines,
        checkBlockLiterals_mapLines body, checkAlternateLiterals_mapLines alternate]
  | .whileLoop _ body orelse | .forLoop _ _ body orelse =>
      simp only [mapLines, checkLiterals, andThen_eq_ok, Expr.checkLiterals_mapLines,
        checkBlockLiterals_mapLines body, checkBlockLiterals_mapLines orelse]

theorem checkAlternateLiterals_mapLines (a : Alternate) :
    checkAlternateLiterals (mapAlternateLines f a) = .ok () ↔ checkAlternateLiterals a = .ok () := by
  match a with
  | .none => rfl
  | .elseIf _ body alternate =>
      simp only [mapAlternateLines, checkAlternateLiterals, andThen_eq_ok,
        Expr.checkLiterals_mapLines, checkBlockLiterals_mapLines body,
        checkAlternateLiterals_mapLines alternate]
  | .otherwise body =>
      simp only [mapAlternateLines, checkAlternateLiterals, checkBlockLiterals_mapLines body]

theorem checkBlockLiterals_mapLines (ss : List Stmt) :
    checkBlockLiterals (mapBlockLines f ss) = .ok () ↔ checkBlockLiterals ss = .ok () := by
  match ss with
  | [] => rfl
  | s :: ss =>
      simp only [mapBlockLines, checkBlockLiterals, andThen_eq_ok, checkLiterals_mapLines s,
        checkBlockLiterals_mapLines ss]

end

/-! ### One list of statements after the other -/

/-- Statements one after the other pass the check exactly if all of them do. -/
theorem checkBlockLiterals_append {ss ss' : List Stmt} :
    checkBlockLiterals (ss ++ ss') = .ok () ↔
      checkBlockLiterals ss = .ok () ∧ checkBlockLiterals ss' = .ok () := by
  induction ss with
  | nil => simp [checkBlockLiterals]
  | cons s ss ih =>
      simp only [List.cons_append, checkBlockLiterals, andThen_eq_ok, ih, and_assoc]

/-- Statements are lowered one after the other, with the numbering of flags as the
state. -/
theorem lowerBlock_append (scope : Scope) (ss ss' : List Stmt) :
    lowerBlock scope (ss ++ ss') =
      (do
        let first ← lowerBlock scope ss
        let rest ← lowerBlock scope ss'
        pure (first ++ rest)) := by
  induction ss with
  | nil => simp [lowerBlock]
  | cons s ss ih =>
      simp only [List.cons_append, lowerBlock, ih, bind_assoc, pure_bind, List.append_assoc]

end Stmt

namespace Target.Stmt

/-- Statements take lines of their own. -/
theorem blockLines_append (depth : Nat) (ss ss' : List Stmt) :
    blockLines depth (ss ++ ss') = blockLines depth ss ++ blockLines depth ss' := by
  induction ss with
  | nil => rfl
  | cons s ss ih => simp [blockLines, ih]

/-- What has no counterpart is reported in the order of the statements. -/
theorem blockDegradations_append (ss ss' : List Stmt) :
    blockDegradations (ss ++ ss') = blockDegradations ss ++ blockDegradations ss' := by
  induction ss with
  | nil => rfl
  | cons s ss ih => simp [blockDegradations, ih]

/-- Every statement has a line, and its first line has text. -/
theorem exists_lines_cons (depth : Nat) (s : Stmt) :
    ∃ l ls, lines depth s = l :: ls ∧ l.text ≠ "" := by
  cases s with
  | returnValue value => cases value <;> exact ⟨_, _, rfl, by simp⟩
  | _ => exact ⟨_, _, rfl, by simp [openLine]⟩

end Target.Stmt

/-! ### Degradations depend on the source alone

The report is collected from the code, which depends on the flags in use. `degraded`
gives it from the statements, without the numbering.
-/

namespace Stmt

mutual

/-- The constructs in a statement that have no counterpart. -/
def degraded : Stmt → List Target.Degradation
  | .functionDef _ _ body | .classDef _ body => blockDegraded body
  | .ifElse _ body alternate => blockDegraded body ++ alternateDegraded alternate
  | .whileLoop _ body orelse => blockDegraded body ++ blockDegraded orelse
  | .forLoop target iter body orelse =>
    match loopHeader target iter with
    | .error degradation => [degradation]
    | .ok _ => blockDegraded body ++ blockDegraded orelse
  | _ => []

/-- The constructs in the rest of a conditional that have no counterpart. -/
def alternateDegraded : Alternate → List Target.Degradation
  | .none => []
  | .elseIf _ body alternate => blockDegraded body ++ alternateDegraded alternate
  | .otherwise body => blockDegraded body

/-- The constructs in statements that have no counterpart. -/
def blockDegraded : List Stmt → List Target.Degradation
  | [] => []
  | s :: ss => degraded s ++ blockDegraded ss

end

open Target.Stmt (blockDegradations alternateDegradations)

/-- A flag is no matter, and the `else` block follows the loop. -/
theorem blockDegradations_completed (flag : Option String) (header : Target.LoopHeader)
    (body orelse : List Target.Stmt) :
    blockDegradations (completed flag header body orelse) =
      blockDegradations body ++ blockDegradations orelse := by
  cases flag with
  | none => rfl
  | some f => simp [completed, blockDegradations, Target.Stmt.degradations]

/-- A loop reports what its body and its `else` block do. Its flag is chosen in
between and changes the numbering, so both must report the same whatever it is. -/
theorem blockDegradations_loop {body orelse : List Stmt} {first second : List Target.Degradation}
    (hbody : ∀ scope n, blockDegradations ((lowerBlock scope body).run n).1 = first)
    (horelse : ∀ scope n, blockDegradations ((lowerBlock scope orelse).run n).1 = second)
    (choose : FlagM (Option String)) (scope : Scope) (header : Target.LoopHeader) (n : Nat) :
    blockDegradations
        (StateT.run (do
          let flag ← choose
          let inner ← lowerBlock (.loopBody flag) body
          let after ← lowerBlock scope.branch orelse
          pure (completed flag header inner after)) n).1 = first ++ second := by
  let flag := choose.run n
  let inner := (lowerBlock (.loopBody flag.1) body).run flag.2
  let after := (lowerBlock scope.branch orelse).run inner.2
  show blockDegradations (completed flag.1 header inner.1 after.1) = first ++ second
  rw [blockDegradations_completed, hbody, horelse]

mutual

theorem blockDegradations_lower (scope : Scope) (n : Nat) (s : Stmt) :
    blockDegradations ((s.lower scope).run n).1 = s.degraded := by
  match s with
  | .assign target value =>
      show blockDegradations [lowerAssign scope target value] = []
      unfold lowerAssign
      split <;> rfl
  | .augAssign _ _ _ | .expr _ | .returnValue _ | .importModule _ | .continueLoop | .pass => rfl
  | .breakLoop =>
      rw [lower]
      cases scope.flag <;> rfl
  | .functionDef _ _ body =>
      have hbody := blockDegradations_lowerBlock Scope.top n body
      rw [lower]
      cases scope.inClass
      · exact (List.append_nil _).trans hbody
      · exact (List.append_nil _).trans hbody
  | .classDef _ body =>
      exact (List.append_nil _).trans (blockDegradations_lowerBlock Scope.classBody n body)
  | .ifElse _ body alternate =>
      have hbody := blockDegradations_lowerBlock scope.branch n body
      have hrest := alternateDegradations_lowerAlternate scope.branch
        ((lowerBlock scope.branch body).run n).2 alternate
      rw [degraded, ← hbody, ← hrest]
      exact List.append_nil _
  | .whileLoop _ body orelse =>
      exact blockDegradations_loop (fun scope n => blockDegradations_lowerBlock scope n body)
        (fun scope n => blockDegradations_lowerBlock scope n orelse) (loopFlag body orelse) scope _ n
  | .forLoop target iter body orelse =>
      rw [lower, degraded]
      cases loopHeader target iter with
      | error _ => rfl
      | ok header =>
          exact blockDegradations_loop (fun scope n => blockDegradations_lowerBlock scope n body)
            (fun scope n => blockDegradations_lowerBlock scope n orelse) (loopFlag body orelse) scope
            header n

theorem alternateDegradations_lowerAlternate (scope : Scope) (n : Nat) (a : Alternate) :
    alternateDegradations ((lowerAlternate scope a).run n).1 = alternateDegraded a := by
  match a with
  | .none => rfl
  | .elseIf _ body alternate =>
      have hbody := blockDegradations_lowerBlock scope n body
      have hrest := alternateDegradations_lowerAlternate scope
        ((lowerBlock scope body).run n).2 alternate
      rw [alternateDegraded, ← hbody, ← hrest]
      rfl
  | .otherwise [] => rfl
  | .otherwise (s :: ss) => exact blockDegradations_lowerBlock scope n (s :: ss)

/-- **What is reported does not depend on the numbering of flags**, nor on where the
statements stand. -/
theorem blockDegradations_lowerBlock (scope : Scope) (n : Nat) (ss : List Stmt) :
    blockDegradations ((lowerBlock scope ss).run n).1 = blockDegraded ss := by
  match ss with
  | [] => rfl
  | s :: ss =>
      have hfirst := blockDegradations_lower scope n s
      have hrest := blockDegradations_lowerBlock scope ((lower scope s).run n).2 ss
      rw [blockDegraded, ← hfirst, ← hrest]
      exact Target.Stmt.blockDegradations_append _ _

end

theorem blockDegraded_append (ss ss' : List Stmt) :
    blockDegraded (ss ++ ss') = blockDegraded ss ++ blockDegraded ss' := by
  induction ss with
  | nil => rfl
  | cons s ss ih => simp [blockDegraded, ih]

/-- What is reported is the same on other lines. -/
theorem blockDegraded_mapLines (f : Nat → Nat) (ss : List Stmt) :
    blockDegraded (mapBlockLines f ss) = blockDegraded ss := by
  rw [← blockDegradations_lowerBlock Scope.top 0, lowerBlock_mapLines,
    blockDegradations_lowerBlock]

end Stmt

/-! ### Text -/

/-- Texts on lines of their own. Those that are empty take no line. -/
def joinTexts (texts : List String) : String := "\n".intercalate (texts.filter (· ≠ ""))

/-- An empty text takes no line, on either side. -/
theorem joinTexts_empty_left (text : String) : joinTexts ["", text] = text := by
  by_cases h : text = "" <;> simp [joinTexts, h]

theorem joinTexts_empty_right (text : String) : joinTexts [text, ""] = text := by
  by_cases h : text = "" <;> simp [joinTexts, h]

/-- Two texts that are not empty are put on lines of their own. -/
theorem joinTexts_pair {first second : String} (hfirst : first ≠ "") (hsecond : second ≠ "") :
    joinTexts [first, second] = first ++ "\n" ++ second := by
  simp [joinTexts, hfirst, hsecond, String.append_assoc]

namespace Target

/-- Code that is not empty has text. -/
theorem renderLines_blockLines_ne_empty (width depth : Nat) {code : List Stmt} (h : code ≠ []) :
    renderLines width (Stmt.blockLines depth code) ≠ "" := by
  obtain ⟨s, ss, rfl⟩ := List.exists_cons_of_ne_nil h
  obtain ⟨l, ls, hlines, htext⟩ := s.exists_lines_cons depth
  have hrender : l.render width ≠ "" := by simp [Line.render, htext]
  rw [Stmt.blockLines, hlines, List.cons_append]
  cases hrest : ls ++ Stmt.blockLines depth ss with
  | nil => simpa [renderLines] using hrender
  | cons m ms => simp [renderLines, hrender]

/-- The text of statements one after the other is their texts, joined. -/
theorem renderLines_append (width depth : Nat) (first second : List Stmt) :
    renderLines width (Stmt.blockLines depth (first ++ second)) =
      joinTexts [renderLines width (Stmt.blockLines depth first),
        renderLines width (Stmt.blockLines depth second)] := by
  by_cases hfirst : first = []
  · subst hfirst
    exact (joinTexts_empty_left _).symm
  · by_cases hsecond : second = []
    · subst hsecond
      rw [List.append_nil]
      exact (joinTexts_empty_right _).symm
    · have htext := renderLines_blockLines_ne_empty width depth hfirst
      have htext' := renderLines_blockLines_ne_empty width depth hsecond
      have hlines : Stmt.blockLines depth first ≠ [] := by
        intro hnil
        simp [hnil, renderLines] at htext
      have hlines' : Stmt.blockLines depth second ≠ [] := by
        intro hnil
        simp [hnil, renderLines] at htext'
      rw [joinTexts_pair htext htext', Stmt.blockLines_append, renderLines, List.map_append,
        String.intercalate_append_of_ne_nil (by simpa using hlines) (by simpa using hlines')]
      rfl

end Target

/-! ### Programs

The pieces together: a writer that goes on after a program, and the output of two
programs joined.
-/

/-- Two programs, one after the other. -/
def Program.append (p q : Program) : Program := ⟨p.statements ++ q.statements⟩

namespace Writer

/-- A writer lowers statements one after the other and keeps its count of flags. -/
theorem lower_append (w : Writer) (scope : Scope) (ss ss' : List Stmt) :
    w.lower scope (ss ++ ss') =
      ((w.lower scope ss).1 ++ ((w.lower scope ss).2.lower scope ss').1,
        ((w.lower scope ss).2.lower scope ss').2) := by
  rw [lower, Stmt.lowerBlock_append]
  rfl

theorem lower_mapLines (w : Writer) (scope : Scope) (f : Nat → Nat) (ss : List Stmt) :
    w.lower scope (Stmt.mapBlockLines f ss) = w.lower scope ss := by
  rw [lower, Stmt.lowerBlock_mapLines]
  rfl

/-- **Lines leave no trace in the code of a program.** -/
theorem program_mapLines (w : Writer) (f : Nat → Nat) (p : Program) :
    w.program (p.mapLines f) = w.program p := by
  show w.block 0 Scope.top (Stmt.mapBlockLines f p.statements) = _
  rw [block, lower_mapLines]
  rfl

/-- Writing two programs with one writer. -/
theorem program_append (w : Writer) (p q : Program) :
    (w.program (p.append q)).1 = joinTexts [(w.program p).1, ((w.program p).2.program q).1] := by
  show Target.renderLines w.width
    (Target.Stmt.blockLines 0 (w.lower Scope.top (p.statements ++ q.statements)).1) = _
  rw [lower_append]
  exact Target.renderLines_append w.width 0 _ _

end Writer

namespace Program

/-- A program whose literals pass the check is written by a new writer. -/
theorem generate_eq {p : Program} (h : p.checkLiterals = .ok ()) (width : Nat) :
    p.generate width =
      .ok ⟨((Writer.new width).program p).1, Stmt.blockDegraded p.statements⟩ := by
  rw [generate, h, ← Stmt.blockDegradations_lowerBlock Scope.top 0]
  rfl

/-- Two programs whose literals pass the checks are written with one writer. -/
theorem generate_append {p q : Program} (hp : p.checkLiterals = .ok ())
    (hq : q.checkLiterals = .ok ()) (f : Nat → Nat) (width : Nat) :
    (p.append (q.mapLines f)).generate width =
      .ok ⟨joinTexts [((Writer.new width).program p).1,
          (((Writer.new width).program p).2.program q).1],
        Stmt.blockDegraded p.statements ++ Stmt.blockDegraded q.statements⟩ := by
  have hcheck : (p.append (q.mapLines f)).checkLiterals = .ok () :=
    Stmt.checkBlockLiterals_append.2 ⟨hp, (Stmt.checkBlockLiterals_mapLines f q.statements).2 hq⟩
  have hdegraded : Stmt.blockDegraded (p.append (q.mapLines f)).statements =
      Stmt.blockDegraded p.statements ++ Stmt.blockDegraded q.statements := by
    show Stmt.blockDegraded (p.statements ++ Stmt.mapBlockLines f q.statements) = _
    rw [Stmt.blockDegraded_append, Stmt.blockDegraded_mapLines]
  rw [generate_eq hcheck, Writer.program_append, Writer.program_mapLines, hdegraded]

end Program

end Offside
