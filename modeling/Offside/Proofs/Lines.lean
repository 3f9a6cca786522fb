import Offside.Ast

/-!
# Offside.Proofs.Lines

The **lines** in a syntax tree. A binary operation keeps the line of its
operator, and nothing else in a program does, so programs that differ in lines
only are the same program written at other places. `mapLines` gives the lines
other numbers, and `eraseLines` takes them away.
-/

namespace Offside

/-! ### Other lines -/

mutual

/-- Give the operations of an expression other lines. -/
def Expr.mapLines (f : Nat → Nat) : Expr → Expr
  | .ident name => .ident name
  | .literal value => .literal value
  | .fstring quasis expressions => .fstring quasis (mapLinesAll f expressions)
  | .binary left op right line => .binary (mapLines f left) op (mapLines f right) (f line)
  | .unary op operand => .unary op (mapLines f operand)
  | .attr value name => .attr (mapLines f value) name
  | .call callee args => .call (mapLines f callee) (mapLinesAll f args)
  | .index target position => .index (mapLines f target) (mapLines f position)
  | .list items => .list (mapLinesAll f items)
  | .group inner => .group (mapLines f inner)

/-- Give the operations of expressions other lines. -/
def Expr.mapLinesAll (f : Nat → Nat) : List Expr → List Expr
  | [] => []
  | e :: es => mapLines f e :: mapLinesAll f es

end

mutual

/-- Give the operations of a statement other lines. -/
def Stmt.mapLines (f : Nat → Nat) : Stmt → Stmt
  | .assign target value => .assign (target.mapLines f) (value.mapLines f)
  | .augAssign target op value => .augAssign (target.mapLines f) op (value.mapLines f)
  | .expr value => .expr (value.mapLines f)
  | .returnValue value => .returnValue (value.map (Expr.mapLines f))
  | .functionDef name params body => .functionDef name params (mapBlockLines f body)
  | .ifElse condition body alternate =>
    .ifElse (condition.mapLines f) (mapBlockLines f body) (mapAlternateLines f alternate)
  | .whileLoop condition body orelse =>
    .whileLoop (condition.mapLines f) (mapBlockLines f body) (mapBlockLines f orelse)
  | .forLoop target iter body orelse =>
    .forLoop (target.mapLines f) (iter.mapLines f) (mapBlockLines f body) (mapBlockLines f orelse)
  | .classDef name body => .classDef name (mapBlockLines f body)
  | .importModule path => .importModule path
  | .breakLoop => .breakLoop
  | .continueLoop => .continueLoop
  | .pass => .pass

/-- Give the operations in the rest of a conditional other lines. -/
def Stmt.mapAlternateLines (f : Nat → Nat) : Alternate → Alternate
  | .none => .none
  | .elseIf condition body alternate =>
    .elseIf (condition.mapLines f) (mapBlockLines f body) (mapAlternateLines f alternate)
  | .otherwise body => .otherwise (mapBlockLines f body)

/-- Give the operations of statements other lines. -/
def Stmt.mapBlockLines (f : Nat → Nat) : List Stmt → List Stmt
  | [] => []
  | s :: ss => mapLines f s :: mapBlockLines f ss

end

/-- Give the operations of a program other lines. -/
def Program.mapLines (f : Nat → Nat) (p : Program) : Program :=
  ⟨Stmt.mapBlockLines f p.statements⟩

/-- A program without its lines. -/
def Program.eraseLines (p : Program) : Program := p.mapLines fun _ => 0

/-! ### One renumbering after the other

Lines are renumbered where programs are joined and erased where they are compared,
so the two must come to one renumbering.
-/

/-- Whether an expression can be assigned to has nothing to do with its lines. -/
@[simp] theorem Expr.isTarget_mapLines (f : Nat → Nat) (e : Expr) :
    (e.mapLines f).isTarget = e.isTarget := by
  cases e <;> rfl

mutual

/-- Lines given twice are given once, by the composition: `mapLines` is an action of
the functions on lines. -/
theorem Expr.mapLines_mapLines (f g : Nat → Nat) (e : Expr) :
    (e.mapLines f).mapLines g = e.mapLines (g ∘ f) := by
  match e with
  | .ident _ | .literal _ => rfl
  | .fstring _ es => simp only [mapLines, mapLinesAll_mapLinesAll f g es]
  | .binary left _ right _ =>
      simp only [mapLines, mapLines_mapLines f g left, mapLines_mapLines f g right,
        Function.comp_apply]
  | .unary _ operand => simp only [mapLines, mapLines_mapLines f g operand]
  | .attr value _ => simp only [mapLines, mapLines_mapLines f g value]
  | .call callee args =>
      simp only [mapLines, mapLines_mapLines f g callee, mapLinesAll_mapLinesAll f g args]
  | .index target position =>
      simp only [mapLines, mapLines_mapLines f g target, mapLines_mapLines f g position]
  | .list items => simp only [mapLines, mapLinesAll_mapLinesAll f g items]
  | .group inner => simp only [mapLines, mapLines_mapLines f g inner]

theorem Expr.mapLinesAll_mapLinesAll (f g : Nat → Nat) (es : List Expr) :
    mapLinesAll g (mapLinesAll f es) = mapLinesAll (g ∘ f) es := by
  match es with
  | [] => rfl
  | e :: es => simp only [mapLinesAll, mapLines_mapLines f g e, mapLinesAll_mapLinesAll f g es]

end

mutual

/-- Lines of a statement given twice are given once, in its blocks too. -/
theorem Stmt.mapLines_mapLines (f g : Nat → Nat) (s : Stmt) :
    (s.mapLines f).mapLines g = s.mapLines (g ∘ f) := by
  match s with
  | .assign _ _ | .augAssign _ _ _ | .expr _ => simp only [mapLines, Expr.mapLines_mapLines]
  | .returnValue none | .importModule _ | .breakLoop | .continueLoop | .pass => rfl
  | .returnValue (some value) =>
      simp only [mapLines, Option.map_some, Expr.mapLines_mapLines]
  | .functionDef _ _ body | .classDef _ body =>
      simp only [mapLines, mapBlockLines_mapBlockLines f g body]
  | .ifElse _ body alternate =>
      simp only [mapLines, Expr.mapLines_mapLines, mapBlockLines_mapBlockLines f g body,
        mapAlternateLines_mapAlternateLines f g alternate]
  | .whileLoop _ body orelse | .forLoop _ _ body orelse =>
      simp only [mapLines, Expr.mapLines_mapLines, mapBlockLines_mapBlockLines f g body,
        mapBlockLines_mapBlockLines f g orelse]

theorem Stmt.mapAlternateLines_mapAlternateLines (f g : Nat → Nat) (a : Alternate) :
    mapAlternateLines g (mapAlternateLines f a) = mapAlternateLines (g ∘ f) a := by
  match a with
  | .none => rfl
  | .elseIf _ body alternate =>
      simp only [mapAlternateLines, Expr.mapLines_mapLines, mapBlockLines_mapBlockLines f g body,
        mapAlternateLines_mapAlternateLines f g alternate]
  | .otherwise body => simp only [mapAlternateLines, mapBlockLines_mapBlockLines f g body]

theorem Stmt.mapBlockLines_mapBlockLines (f g : Nat → Nat) (ss : List Stmt) :
    mapBlockLines g (mapBlockLines f ss) = mapBlockLines (g ∘ f) ss := by
  match ss with
  | [] => rfl
  | s :: ss =>
      simp only [mapBlockLines, mapLines_mapLines f g s, mapBlockLines_mapBlockLines f g ss]

end

mutual

/-- An expression is kept if its lines are. -/
theorem Expr.mapLines_id (e : Expr) : e.mapLines id = e := by
  match e with
  | .ident _ | .literal _ => rfl
  | .fstring _ es => simp only [mapLines, mapLinesAll_id es]
  | .binary left _ right _ => simp only [mapLines, mapLines_id left, mapLines_id right, id_eq]
  | .unary _ operand => simp only [mapLines, mapLines_id operand]
  | .attr value _ => simp only [mapLines, mapLines_id value]
  | .call callee args => simp only [mapLines, mapLines_id callee, mapLinesAll_id args]
  | .index target position => simp only [mapLines, mapLines_id target, mapLines_id position]
  | .list items => simp only [mapLines, mapLinesAll_id items]
  | .group inner => simp only [mapLines, mapLines_id inner]

theorem Expr.mapLinesAll_id (es : List Expr) : mapLinesAll id es = es := by
  match es with
  | [] => rfl
  | e :: es => simp only [mapLinesAll, mapLines_id e, mapLinesAll_id es]

end

mutual

/-- A statement is kept if its lines are. -/
theorem Stmt.mapLines_id (s : Stmt) : s.mapLines id = s := by
  match s with
  | .assign _ _ | .augAssign _ _ _ | .expr _ => simp only [mapLines, Expr.mapLines_id]
  | .returnValue none | .importModule _ | .breakLoop | .continueLoop | .pass => rfl
  | .returnValue (some value) => simp only [mapLines, Option.map_some, Expr.mapLines_id]
  | .functionDef _ _ body | .classDef _ body => simp only [mapLines, mapBlockLines_id body]
  | .ifElse _ body alternate =>
      simp only [mapLines, Expr.mapLines_id, mapBlockLines_id body, mapAlternateLines_id alternate]
  | .whileLoop _ body orelse | .forLoop _ _ body orelse =>
      simp only [mapLines, Expr.mapLines_id, mapBlockLines_id body, mapBlockLines_id orelse]

theorem Stmt.mapAlternateLines_id (a : Alternate) : mapAlternateLines id a = a := by
  match a with
  | .none => rfl
  | .elseIf _ body alternate =>
      simp only [mapAlternateLines, Expr.mapLines_id, mapBlockLines_id body,
        mapAlternateLines_id alternate]
  | .otherwise body => simp only [mapAlternateLines, mapBlockLines_id body]

theorem Stmt.mapBlockLines_id (ss : List Stmt) : mapBlockLines id ss = ss := by
  match ss with
  | [] => rfl
  | s :: ss => simp only [mapBlockLines, mapLines_id s, mapBlockLines_id ss]

end

/-- A program is kept if its lines are. -/
theorem Program.mapLines_id (p : Program) : p.mapLines id = p := by
  rw [mapLines, Stmt.mapBlockLines_id]

end Offside
