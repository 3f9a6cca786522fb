import Offside.Proofs.Writing

/-!
# Offside.Proofs.Omissions

What generated code **leaves out**. Only a loop over a `range` with a number of
arguments that `range` does not take has no counterpart, and with it goes all that
stands in it. Main statement: `Program.degradations_of_generate`, by which each such
loop that is reached is reported, in the order of the source; a program without such
loops is complete, and then every statement of it is written.

The statements of a program are listed with those around them (`Stmt.blockSites`),
so that a loop inside one that is left out can be told from one that is reached.
-/

namespace Offside

namespace Stmt

/-! ### Statements and what is around them -/

/-- A statement of a program, with the statements that it stands in, from the
innermost to the outermost. -/
structure Site where
  outer : List Stmt
  stmt : Stmt

mutual

/-- The statements in the blocks of a statement, where `outer` is this statement with
those around it. -/
def innerSites (outer : List Stmt) : Stmt → List Site
  | .functionDef _ _ body | .classDef _ body => blockSites outer body
  | .ifElse _ body alternate => blockSites outer body ++ alternateSites outer alternate
  | .whileLoop _ body orelse | .forLoop _ _ body orelse =>
    blockSites outer body ++ blockSites outer orelse
  | _ => []

/-- The statements in the rest of a conditional. -/
def alternateSites (outer : List Stmt) : Alternate → List Site
  | .none => []
  | .elseIf _ body alternate => blockSites outer body ++ alternateSites outer alternate
  | .otherwise body => blockSites outer body

/-- The statements of a block at any depth, in the order of the source and each
before those in its own blocks. -/
def blockSites (outer : List Stmt) : List Stmt → List Site
  | [] => []
  | s :: ss => ⟨outer, s⟩ :: (innerSites (s :: outer) s ++ blockSites outer ss)

end

/-! ### Loops over bad ranges -/

/-- The number of arguments of the `range` that a loop goes over, unless it is one,
two or three. -/
def badRange? : Stmt → Option Nat
  | .forLoop _ (.call (.ident "range") args) _ _ =>
    if 1 ≤ args.length ∧ args.length ≤ 3 then none else some args.length
  | _ => none

/-- What is reported for a loop over a `range` with `n` arguments. -/
def rangeDegradation (n : Nat) : Target.Degradation :=
  ⟨"ForStatement", "range arguments (" ++ toString n ++ " given)"⟩

/-- What stands inside the given statements is reached: none of them is a loop over
a bad range. -/
def areReached (outer : List Stmt) : Bool := outer.all fun s => s.badRange?.isNone

/-- What is reported for a statement at its site. -/
def Site.degradation? (site : Site) : Option Target.Degradation :=
  if areReached site.outer then site.stmt.badRange?.map rangeDegradation else none

theorem rangeHeader_eq_error (target : Target.Expr) {args : List Target.Expr}
    (h : ¬ (1 ≤ args.length ∧ args.length ≤ 3)) :
    rangeHeader target args = .error (rangeDegradation args.length) := by
  match args with
  | [] => rfl
  | [_] | [_, _] | [_, _, _] => simp at h
  | _ :: _ :: _ :: _ :: _ => rfl

theorem exists_rangeHeader (target : Target.Expr) {args : List Target.Expr}
    (h : 1 ≤ args.length ∧ args.length ≤ 3) : ∃ header, rangeHeader target args = .ok header := by
  match args with
  | [] => simp at h
  | [_] | [_, _] | [_, _, _] => exact ⟨_, rfl⟩
  | _ :: _ :: _ :: _ :: _ =>
      simp only [List.length_cons] at h
      omega

/-- A loop has a header unless its range is bad. -/
theorem loopHeader_cases (target iter : Expr) (body orelse : List Stmt) :
    (∃ header, loopHeader target iter = .ok header ∧
      (Stmt.forLoop target iter body orelse).badRange? = none) ∨
    ∃ n, loopHeader target iter = .error (rangeDegradation n) ∧
      (Stmt.forLoop target iter body orelse).badRange? = some n := by
  by_cases hrange : ∃ args, iter = .call (.ident "range") args
  · obtain ⟨args, rfl⟩ := hrange
    have hlength := Expr.length_lowerAll args
    rw [loopHeader, badRange?]
    by_cases hargs : 1 ≤ args.length ∧ args.length ≤ 3
    · obtain ⟨header, hheader⟩ := exists_rangeHeader target.lower (hlength ▸ hargs)
      exact .inl ⟨header, hheader, if_pos hargs⟩
    · have herror := rangeHeader_eq_error target.lower (hlength ▸ hargs)
      rw [hlength] at herror
      exact .inr ⟨args.length, herror, if_neg hargs⟩
  · have hiter : ∀ args, iter ≠ .call (.ident "range") args := by simpa using hrange
    refine .inl ⟨_, loopHeader_of_ne_range hiter target, ?_⟩
    unfold badRange?
    split
    · rename_i heq
      obtain ⟨-, rfl, -, -⟩ := Stmt.forLoop.inj heq
      exact absurd rfl (hiter _)
    · rfl

theorem degraded_of_badRange? {s : Stmt} {n : Nat} (h : s.badRange? = some n) :
    s.degraded = [rangeDegradation n] := by
  cases s with
  | forLoop target iter body orelse =>
      rcases loopHeader_cases target iter body orelse with ⟨header, -, hgood⟩ | ⟨m, hheader, hbad⟩
      · cases hgood.symm.trans h
      · obtain rfl := Option.some.inj (hbad.symm.trans h)
        rw [degraded, hheader]
  | _ => cases h

/-! ### What is reported -/

mutual

theorem suffix_of_mem_innerSites {outer : List Stmt} {site : Site} (s : Stmt)
    (h : site ∈ innerSites outer s) : outer <:+ site.outer := by
  match s with
  | .functionDef _ _ body | .classDef _ body => exact suffix_of_mem_blockSites body h
  | .ifElse _ body alternate =>
      rcases List.mem_append.1 h with hbody | hrest
      · exact suffix_of_mem_blockSites body hbody
      · exact suffix_of_mem_alternateSites alternate hrest
  | .whileLoop _ body orelse | .forLoop _ _ body orelse =>
      rcases List.mem_append.1 h with hbody | hrest
      · exact suffix_of_mem_blockSites body hbody
      · exact suffix_of_mem_blockSites orelse hrest
  | .assign _ _ | .augAssign _ _ _ | .expr _ | .returnValue _ | .importModule _ | .breakLoop
  | .continueLoop | .pass => cases h

theorem suffix_of_mem_alternateSites {outer : List Stmt} {site : Site} (a : Alternate)
    (h : site ∈ alternateSites outer a) : outer <:+ site.outer := by
  match a with
  | .none => cases h
  | .elseIf _ body alternate =>
      rcases List.mem_append.1 h with hbody | hrest
      · exact suffix_of_mem_blockSites body hbody
      · exact suffix_of_mem_alternateSites alternate hrest
  | .otherwise body => exact suffix_of_mem_blockSites body h

/-- What is around a block is around the statements in it. -/
theorem suffix_of_mem_blockSites {outer : List Stmt} {site : Site} (ss : List Stmt)
    (h : site ∈ blockSites outer ss) : outer <:+ site.outer := by
  match ss with
  | [] => cases h
  | s :: ss =>
      rcases List.mem_cons.1 h with rfl | hlater
      · exact List.suffix_refl outer
      · rcases List.mem_append.1 hlater with hinner | hrest
        · exact (List.suffix_cons s outer).trans (suffix_of_mem_innerSites s hinner)
        · exact suffix_of_mem_blockSites ss hrest

end

/-- Nothing is reported for the statements inside a loop over a bad range. -/
theorem filterMap_innerSites_of_bad {s : Stmt} (hbad : s.badRange? ≠ none) (outer : List Stmt) :
    (innerSites (s :: outer) s).filterMap Site.degradation? = [] := by
  refine List.filterMap_eq_nil_iff.2 fun site hsite => ?_
  have hmem : s ∈ site.outer := (suffix_of_mem_innerSites s hsite).mem List.mem_cons_self
  have hreached : areReached site.outer = false := by
    refine List.all_eq_false.2 ⟨s, hmem, ?_⟩
    simpa using hbad
  rw [Site.degradation?, hreached]
  rfl

theorem areReached_cons {outer : List Stmt} (h : areReached outer = true) {s : Stmt}
    (hs : s.badRange? = none) : areReached (s :: outer) = true := by
  rw [areReached, List.all_cons, hs]
  exact h

mutual

theorem filterMap_innerSites {outer : List Stmt} (h : areReached outer = true) (s : Stmt)
    (hs : s.badRange? = none) :
    (innerSites outer s).filterMap Site.degradation? = s.degraded := by
  match s with
  | .functionDef _ _ body | .classDef _ body =>
      rw [innerSites, degraded, filterMap_blockSites h body]
  | .ifElse _ body alternate =>
      rw [innerSites, degraded, List.filterMap_append, filterMap_blockSites h body,
        filterMap_alternateSites h alternate]
  | .whileLoop _ body orelse =>
      rw [innerSites, degraded, List.filterMap_append, filterMap_blockSites h body,
        filterMap_blockSites h orelse]
  | .forLoop target iter body orelse =>
      rcases loopHeader_cases target iter body orelse with ⟨header, hheader, -⟩ | ⟨n, -, hbad⟩
      · rw [innerSites, degraded, hheader, List.filterMap_append, filterMap_blockSites h body,
          filterMap_blockSites h orelse]
      · cases hs.symm.trans hbad
  | .assign _ _ | .augAssign _ _ _ | .expr _ | .returnValue _ | .importModule _ | .breakLoop
  | .continueLoop | .pass => rfl

theorem filterMap_alternateSites {outer : List Stmt} (h : areReached outer = true) (a : Alternate) :
    (alternateSites outer a).filterMap Site.degradation? = alternateDegraded a := by
  match a with
  | .none => rfl
  | .elseIf _ body alternate =>
      rw [alternateSites, alternateDegraded, List.filterMap_append, filterMap_blockSites h body,
        filterMap_alternateSites h alternate]
  | .otherwise body => rw [alternateSites, alternateDegraded, filterMap_blockSites h body]

/-- The loops over bad ranges that are reached are those without a counterpart. -/
theorem filterMap_blockSites {outer : List Stmt} (h : areReached outer = true) (ss : List Stmt) :
    (blockSites outer ss).filterMap Site.degradation? = blockDegraded ss := by
  match ss with
  | [] => rfl
  | s :: ss =>
      have hrest := filterMap_blockSites h ss
      rw [blockSites, List.filterMap_cons, Site.degradation?, if_pos h, List.filterMap_append,
        hrest, blockDegraded]
      cases hbad : s.badRange? with
      | none =>
          rw [filterMap_innerSites (areReached_cons h hbad) s hbad]
          rfl
      | some n =>
          rw [filterMap_innerSites_of_bad (by simp [hbad]), degraded_of_badRange? hbad]
          rfl

end

mutual

theorem degraded_eq_nil_iff (outer : List Stmt) (s : Stmt) (hs : s.badRange? = none) :
    s.degraded = [] ↔ ∀ site ∈ innerSites outer s, site.stmt.badRange? = none := by
  match s with
  | .functionDef _ _ body | .classDef _ body =>
      rw [innerSites, degraded, blockDegraded_eq_nil_iff outer body]
  | .ifElse _ body alternate =>
      rw [innerSites, degraded, List.append_eq_nil_iff, List.forall_mem_append,
        blockDegraded_eq_nil_iff outer body, alternateDegraded_eq_nil_iff outer alternate]
  | .whileLoop _ body orelse =>
      rw [innerSites, degraded, List.append_eq_nil_iff, List.forall_mem_append,
        blockDegraded_eq_nil_iff outer body, blockDegraded_eq_nil_iff outer orelse]
  | .forLoop target iter body orelse =>
      rcases loopHeader_cases target iter body orelse with ⟨header, hheader, -⟩ | ⟨n, -, hbad⟩
      · rw [innerSites, degraded, hheader, List.append_eq_nil_iff, List.forall_mem_append,
          blockDegraded_eq_nil_iff outer body, blockDegraded_eq_nil_iff outer orelse]
      · cases hs.symm.trans hbad
  | .assign _ _ | .augAssign _ _ _ | .expr _ | .returnValue _ | .importModule _ | .breakLoop
  | .continueLoop | .pass => simp [innerSites, degraded]

theorem alternateDegraded_eq_nil_iff (outer : List Stmt) (a : Alternate) :
    alternateDegraded a = [] ↔ ∀ site ∈ alternateSites outer a, site.stmt.badRange? = none := by
  match a with
  | .none => simp [alternateSites, alternateDegraded]
  | .elseIf _ body alternate =>
      rw [alternateSites, alternateDegraded, List.append_eq_nil_iff, List.forall_mem_append,
        blockDegraded_eq_nil_iff outer body, alternateDegraded_eq_nil_iff outer alternate]
  | .otherwise body => rw [alternateSites, alternateDegraded, blockDegraded_eq_nil_iff outer body]

/-- Nothing is without a counterpart if and only if there is no loop over a bad
range, reached or not: around one that is not reached there is one that is. -/
theorem blockDegraded_eq_nil_iff (outer : List Stmt) (ss : List Stmt) :
    blockDegraded ss = [] ↔ ∀ site ∈ blockSites outer ss, site.stmt.badRange? = none := by
  match ss with
  | [] => simp [blockSites, blockDegraded]
  | s :: ss =>
      rw [blockSites, blockDegraded, List.append_eq_nil_iff, List.forall_mem_cons,
        List.forall_mem_append, blockDegraded_eq_nil_iff outer ss]
      cases hbad : s.badRange? with
      | none => simp [degraded_eq_nil_iff (s :: outer) s hbad]
      | some n => simp [degraded_of_badRange? hbad]

end

/-! ### What is written -/

/-- The text of an assignment. In a class, a name becomes a static field. -/
def assignText (inClass : Bool) (target value : Expr) : String :=
  match inClass, target with
  | true, .ident name => "static " ++ name ++ " = " ++ value.toCode ++ ";"
  | _, _ => target.toCode ++ " = " ++ value.toCode ++ ";"

/-- The text of a loop up to its body, or the comment in its place. -/
def forText (target iter : Expr) : String :=
  match loopHeader target iter with
  | .ok header => header.render ++ " \x7b"
  | .error degradation => "/* Unsupported " ++ degradation.detail ++ " */"

/-- The text of a statement, up to its first block if it has one. -/
def heading (inClass : Bool) : Stmt → String
  | .assign target value => assignText inClass target value
  | .augAssign target op value =>
    target.toCode ++ " " ++ op.lower.symbol ++ "= " ++ value.toCode ++ ";"
  | .expr value => value.toCode ++ ";"
  | .returnValue (some value) => "return " ++ value.toCode ++ ";"
  | .returnValue none => "return;"
  | .functionDef name params _ =>
    (if inClass then name else "function " ++ name) ++ Target.parameterList params ++ " \x7b"
  | .ifElse condition _ _ => "if (" ++ condition.toCode ++ ")" ++ " \x7b"
  | .whileLoop condition _ _ => "while (" ++ condition.toCode ++ ")" ++ " \x7b"
  | .forLoop target iter _ _ => forText target iter
  | .classDef name _ => "class " ++ name ++ " \x7b"
  | .importModule path => "// import " ++ dottedName path
  | .breakLoop => "break;"
  | .continueLoop => "continue;"
  | .pass => ";"

mutual

/-- The texts of the statements in the blocks of a statement. -/
def innerTexts : Stmt → List String
  | .functionDef _ _ body => blockTexts false body
  | .classDef _ body => blockTexts true body
  | .ifElse _ body alternate => blockTexts false body ++ alternateTexts alternate
  | .whileLoop _ body orelse | .forLoop _ _ body orelse =>
    blockTexts false body ++ blockTexts false orelse
  | _ => []

/-- The texts of the conditions and the statements in the rest of a conditional. -/
def alternateTexts : Alternate → List String
  | .none => []
  | .elseIf condition body alternate =>
    ("\x7d else if (" ++ condition.toCode ++ ")" ++ " \x7b") ::
      (blockTexts false body ++ alternateTexts alternate)
  | .otherwise body => blockTexts false body

/-- The texts of all statements of a block, at any depth and in the order of the
source. -/
def blockTexts (inClass : Bool) : List Stmt → List String
  | [] => []
  | s :: ss => s.heading inClass :: (innerTexts s ++ blockTexts inClass ss)

end

end Stmt

namespace Target.Stmt

/-- Code has lines with these texts, in this order. -/
def Shows (texts : List String) (code : List Stmt) : Prop :=
  ∀ depth, texts.Sublist ((blockLines depth code).map Line.text)

/-- The rest of a conditional has lines with these texts, in this order. -/
def AlternateShows (texts : List String) (a : Alternate) : Prop :=
  ∀ depth, texts.Sublist ((alternateLines depth a).map Line.text)

namespace Shows

variable {texts texts' : List String} {code code' body : List Stmt} {s : Stmt} {header : String}

theorem append (h : Shows texts code) (h' : Shows texts' code') :
    Shows (texts ++ texts') (code ++ code') := by
  intro depth
  rw [blockLines_append, List.map_append]
  exact (h depth).append (h' depth)

/-- A statement that is one line. -/
theorem of_line {text : String} (h : ∀ depth, lines depth s = [⟨depth, text⟩]) :
    Shows [text] [s] := by
  intro depth
  rw [blockLines, h depth]
  exact List.Sublist.refl _

theorem inBlock (h : Shows texts body) (depth : Nat) :
    texts.Sublist ((orBlankLine (blockLines (depth + 1) body)).map Line.text) :=
  (h (depth + 1)).trans ((sublist_orBlankLine _).map Line.text)

/-- A statement that is a block with a line before and a line after it. -/
theorem of_block (h : Shows texts body)
    (hlines : ∀ depth, lines depth s = openLine depth header ::
      (orBlankLine (blockLines (depth + 1) body) ++ [closeLine depth])) :
    Shows ((header ++ " \x7b") :: texts) [s] := by
  intro depth
  rw [blockLines, hlines depth]
  simp only [blockLines, List.append_nil, List.map_cons, List.map_append]
  exact .cons_cons _ ((h.inBlock depth).trans (List.sublist_append_left _ _))

theorem of_ifElse {condition : Expr} {alternate : Alternate} (h : Shows texts body)
    (h' : AlternateShows texts' alternate) :
    Shows (("if (" ++ condition.render ++ ")" ++ " \x7b") :: (texts ++ texts'))
      [.ifElse condition body alternate] := by
  intro depth
  simp only [blockLines, lines, List.append_nil, List.map_cons, List.map_append]
  exact .cons_cons _ ((h.inBlock depth).append (h' depth))

theorem of_elseIf {condition : Expr} {alternate : Alternate} (h : Shows texts body)
    (h' : AlternateShows texts' alternate) :
    AlternateShows (("\x7d else if (" ++ condition.render ++ ")" ++ " \x7b") :: (texts ++ texts'))
      (.elseIf condition body alternate) := by
  intro depth
  simp only [alternateLines, List.map_cons, List.map_append]
  exact .cons_cons _ ((h.inBlock depth).append (h' depth))

theorem of_otherwise (h : Shows texts body) : AlternateShows texts (.otherwise body) := by
  intro depth
  simp only [alternateLines, List.map_cons, List.map_append]
  exact .cons _ ((h.inBlock depth).trans (List.sublist_append_left _ _))

/-- A loop with its `else` block, with or without a flag. -/
theorem completed {loopHeader : LoopHeader} (flag : Option String) (h : Shows texts body)
    (h' : Shows texts' code) :
    Shows ((loopHeader.render ++ " \x7b") :: (texts ++ texts'))
      (completed flag loopHeader body code) := by
  have hloop : Shows ((loopHeader.render ++ " \x7b") :: texts) [.loop loopHeader body] :=
    h.of_block fun _ => rfl
  cases flag with
  | none => exact hloop.append h'
  | some flag =>
      have hguarded : Shows (("if (" ++ flag ++ ")" ++ " \x7b") :: texts') [.ifFlag flag code] :=
        h'.of_block fun _ => rfl
      have hafter : Shows texts' [.ifFlag flag code] := fun depth =>
        (List.sublist_cons_self _ _).trans (hguarded depth)
      have hset : Shows [] [.setFlag flag] := fun _ => List.nil_sublist _
      exact hset.append (hloop.append hafter)

end Shows

end Target.Stmt

namespace Stmt

open Target.Stmt (Shows AlternateShows)

theorem shows_lowerAssign (scope : Scope) (target value : Expr) :
    Shows [assignText scope.inClass target value] [lowerAssign scope target value] := by
  refine .of_line fun depth => ?_
  unfold assignText lowerAssign
  cases scope.inClass with
  | false => rfl
  | true => cases target <;> rfl

/-- A loop is written with its body and its `else` block. -/
theorem shows_loop {body orelse : List Stmt}
    (hbody : ∀ scope n, Shows (blockTexts scope.inClass body) ((lowerBlock scope body).run n).1)
    (horelse : ∀ scope n,
      Shows (blockTexts scope.inClass orelse) ((lowerBlock scope orelse).run n).1)
    (choose : FlagM (Option String)) (scope : Scope) (header : Target.LoopHeader) (n : Nat) :
    Shows ((header.render ++ " \x7b") :: (blockTexts false body ++ blockTexts false orelse))
      (StateT.run (do
        let flag ← choose
        let inner ← lowerBlock (.loopBody flag) body
        let after ← lowerBlock scope.branch orelse
        pure (completed flag header inner after)) n).1 := by
  let flag := choose.run n
  let inner := (lowerBlock (.loopBody flag.1) body).run flag.2
  exact (hbody (.loopBody flag.1) flag.2).completed flag.1 (horelse scope.branch inner.2)

mutual

theorem shows_lower (scope : Scope) (n : Nat) (s : Stmt) (h : s.degraded = []) :
    Shows (s.heading scope.inClass :: s.innerTexts) ((s.lower scope).run n).1 := by
  match s with
  | .assign target value => exact shows_lowerAssign scope target value
  | .augAssign _ _ _ | .expr _ | .importModule _ | .continueLoop | .pass =>
      exact .of_line fun _ => rfl
  | .returnValue value => cases value <;> exact .of_line fun _ => rfl
  | .breakLoop =>
      have hbreak : Shows ["break;"] [.breakLoop] := .of_line fun _ => rfl
      rw [lower]
      cases scope.flag with
      | none => exact hbreak
      | some flag =>
          have hclear : Shows [] [.clearFlag flag] := fun _ => List.nil_sublist _
          exact hclear.append hbreak
  | .functionDef _ _ body =>
      have hbody := shows_lowerBlock Scope.top n body h
      rw [lower, heading]
      cases scope.inClass
      · exact hbody.of_block fun _ => rfl
      · exact hbody.of_block fun _ => rfl
  | .classDef _ body =>
      exact (shows_lowerBlock Scope.classBody n body h).of_block fun _ => rfl
  | .ifElse _ body alternate =>
      obtain ⟨hthen, helse⟩ := List.append_eq_nil_iff.1 h
      exact (shows_lowerBlock scope.branch n body hthen).of_ifElse
        (shows_lowerAlternate scope.branch rfl _ alternate helse)
  | .whileLoop condition body orelse =>
      obtain ⟨hloop, helse⟩ := List.append_eq_nil_iff.1 h
      exact shows_loop (fun scope n => shows_lowerBlock scope n body hloop)
        (fun scope n => shows_lowerBlock scope n orelse helse) (loopFlag body orelse) scope
        (.whileTrue condition.lower) n
  | .forLoop target iter body orelse =>
      rw [degraded] at h
      rw [lower, heading, forText]
      cases hheader : loopHeader target iter with
      | error degradation =>
          rw [hheader] at h
          cases h
      | ok header =>
          rw [hheader] at h
          obtain ⟨hloop, helse⟩ := List.append_eq_nil_iff.1 h
          exact shows_loop (fun scope n => shows_lowerBlock scope n body hloop)
            (fun scope n => shows_lowerBlock scope n orelse helse) (loopFlag body orelse) scope
            header n

theorem shows_lowerAlternate (scope : Scope) (hscope : scope.inClass = false) (n : Nat)
    (a : Alternate) (h : alternateDegraded a = []) :
    AlternateShows (alternateTexts a) ((lowerAlternate scope a).run n).1 := by
  match a with
  | .none => exact fun _ => List.nil_sublist _
  | .elseIf _ body alternate =>
      obtain ⟨hthen, helse⟩ := List.append_eq_nil_iff.1 h
      have hbody := shows_lowerBlock scope n body hthen
      rw [hscope] at hbody
      exact hbody.of_elseIf (shows_lowerAlternate scope hscope _ alternate helse)
  | .otherwise [] => exact fun _ => List.nil_sublist _
  | .otherwise (s :: ss) =>
      have hbody := shows_lowerBlock scope n (s :: ss) h
      rw [hscope] at hbody
      exact hbody.of_otherwise

/-- Where nothing is without a counterpart, every statement is written. -/
theorem shows_lowerBlock (scope : Scope) (n : Nat) (ss : List Stmt) (h : blockDegraded ss = []) :
    Shows (blockTexts scope.inClass ss) ((lowerBlock scope ss).run n).1 := by
  match ss with
  | [] => exact fun _ => List.nil_sublist _
  | s :: ss =>
      obtain ⟨hfirst, hrest⟩ := List.append_eq_nil_iff.1 h
      exact (shows_lower scope n s hfirst).append
        (shows_lowerBlock scope ((lower scope s).run n).2 ss hrest)

end

end Stmt

/-! ### Programs -/

/-- The statements of a program at any depth, in the order of the source and each
before those in its own blocks. -/
def Program.sites (p : Program) : List Stmt.Site := Stmt.blockSites [] p.statements

/-- **What is left out is reported.** The reports on the code of a program are one for
each loop over a bad range that stands in no other such loop, in the order of the
source. The code is complete exactly if the program has no loop over a bad range, and
then every statement of the program, at any depth, has its line in the code, in the
order of the source. -/
theorem Program.degradations_of_generate {p : Program} {width : Nat} {output : Output}
    (h : p.generate width = .ok output) :
    output.degradations = p.sites.filterMap Stmt.Site.degradation? ∧
    (output.isComplete = true ↔ ∀ site ∈ p.sites, site.stmt.badRange? = none) ∧
    (output.isComplete = true →
      ∃ lines : List Target.Line,
        output.code = "\n".intercalate (lines.map fun l =>
          String.ofList (List.replicate (l.depth * width) ' ') ++ l.text) ∧
        (Stmt.blockTexts false p.statements).Sublist (lines.map Target.Line.text)) := by
  have hcheck : p.checkLiterals = .ok () := by
    cases hresult : p.checkLiterals with
    | ok _ => rfl
    | error failure =>
        rw [generate, hresult] at h
        cases h
  obtain rfl := Except.ok.inj ((generate_eq hcheck width).symm.trans h)
  have hcomplete : (Stmt.blockDegraded p.statements).isEmpty = true ↔
      Stmt.blockDegraded p.statements = [] := List.isEmpty_iff
  refine ⟨(Stmt.filterMap_blockSites rfl p.statements).symm, ?_, fun hempty => ?_⟩
  · exact hcomplete.trans (Stmt.blockDegraded_eq_nil_iff [] p.statements)
  · exact ⟨_, rfl, Stmt.shows_lowerBlock Scope.top 0 p.statements (hcomplete.1 hempty) 0⟩

/-- A loop over `range()` in a method, with a loop over a bad range inside it, and a
loop over a `range` of four in the `else` block of another loop. -/
def skippedLoops : Program :=
  ⟨[.classDef "C"
      [.functionDef "f" []
        [.forLoop (.ident "i") (.call (.ident "range") [])
          [.forLoop (.ident "j") (.call (.ident "range") []) [.pass] []] [.pass]]],
    .whileLoop (.ident "a") [.breakLoop]
      [.forLoop (.ident "k")
        (.call (.ident "range") [.ident "b", .ident "c", .ident "d", .ident "e"]) [.pass] []]]⟩

/-- A loop with an `else` block in a method, over a range of three. -/
def keptLoop : Program :=
  ⟨[.classDef "C"
      [.assign (.ident "x") (.ident "y"),
        .functionDef "f" []
          [.forLoop (.ident "i") (.call (.ident "range") [.ident "b", .ident "c", .ident "d"])
            [.ifElse (.ident "i") [.breakLoop] (.elseIf (.ident "x") [.continueLoop] .none)]
            [.returnValue none]]]]⟩

/-- The text of this program. -/
def keptLoopCode : String :=
  "class C \x7b\n" ++
  "    static x = y;\n" ++
  "    f() \x7b\n" ++
  "        let _loop_completed_1 = true;\n" ++
  "        for (var i = b; i < c; i += d) \x7b\n" ++
  "            if (i) \x7b\n" ++
  "                _loop_completed_1 = false;\n" ++
  "                break;\n" ++
  "            \x7d else if (x) \x7b\n" ++
  "                continue;\n" ++
  "            \x7d\n" ++
  "        \x7d\n" ++
  "        if (_loop_completed_1) \x7b\n" ++
  "            return;\n" ++
  "        \x7d\n" ++
  "    \x7d\n" ++
  "\x7d"

/-- Of the three bad loops of the first program two are reported; the second program
has none, and all of its statements are written. -/
theorem degradations_of_skippedLoops_keptLoop :
    (∃ output, skippedLoops.generate 4 = .ok output ∧
      output.code = "class C \x7b\n    f() \x7b\n        /* Unsupported range arguments (0 given) */\n" ++
        "    \x7d\n\x7d\nlet _loop_completed_1 = true;\nwhile (a) \x7b\n" ++
        "    _loop_completed_1 = false;\n    break;\n\x7d\nif (_loop_completed_1) \x7b\n" ++
        "    /* Unsupported range arguments (4 given) */\n\x7d" ∧
      output.degradations =
        [⟨"ForStatement", "range arguments (0 given)"⟩,
          ⟨"ForStatement", "range arguments (4 given)"⟩] ∧
      output.isComplete = false) ∧
    ∃ output, keptLoop.generate 4 = .ok output ∧ output.code = keptLoopCode ∧
      output.isComplete = true ∧
      ∃ lines : List Target.Line,
        keptLoopCode = "\n".intercalate (lines.map fun l =>
          String.ofList (List.replicate (l.depth * 4) ' ') ++ l.text) ∧
        ["class C \x7b", "static x = y;", "f() \x7b", "for (var i = b; i < c; i += d) \x7b",
          "if (i) \x7b", "break;", "\x7d else if (x) \x7b", "continue;", "return;"].Sublist
          (lines.map Target.Line.text) := by
  have hskipped := Program.generate_eq (p := skippedLoops) rfl 4
  have hkept := Program.generate_eq (p := keptLoop) rfl 4
  obtain ⟨hreports, hcomplete, -⟩ := Program.degradations_of_generate hskipped
  obtain ⟨-, hcomplete', hwritten⟩ := Program.degradations_of_generate hkept
  have hall : ∀ site ∈ keptLoop.sites, site.stmt.badRange? = none := by decide +kernel
  have hcode : ((Writer.new 4).program keptLoop).1 = keptLoopCode := by decide +kernel
  refine ⟨⟨_, hskipped, by decide +kernel, hreports.trans (by decide +kernel), ?_⟩,
    _, hkept, hcode, hcomplete'.2 hall, hcode ▸ hwritten (hcomplete'.2 hall)⟩
  refine Bool.eq_false_iff.2 fun hnone => ?_
  have hgood := hcomplete.1 hnone
  exact absurd hgood (by decide +kernel)

end Offside
