import Offside.Ast.Equality
import Offside.Proofs.Derivation.Statement
import Offside.Proofs.Omissions

/-!
# Offside.Proofs.Targets

What statements **bind**. An assignment is refused unless its target is a name, an
attribute or an element. A loop takes every primary expression for its target, and
nothing is asked of it afterwards. Main statement: `isTarget_iff_of_parse`, by which
**everything that is bound can be assigned to unless a loop binds a literal, an
f-string, a list, a call or an expression in parentheses**.
-/

namespace Offside

/-- The target of an assignment. -/
def Stmt.assigned? : Stmt → Option Expr
  | .assign target _ | .augAssign target _ _ => some target
  | _ => none

/-- The target of a loop. -/
def Stmt.looped? : Stmt → Option Expr
  | .forLoop target _ _ _ => some target
  | _ => none

/-- A statement by itself, without its blocks, binds an expression. -/
def Stmt.Binds (s : Stmt) (target : Expr) : Prop := target ∈ s.assigned? ∨ target ∈ s.looped?

namespace Expr

/-- An expression with an operator outside all parentheses and brackets. -/
def isOperation : Expr → Bool
  | .binary .. | .unary .. => true
  | _ => false

/-- A literal, an f-string, a list, a call or an expression in parentheses: it has a
value, but there is no place for another one. -/
def isFixed : Expr → Bool
  | .literal _ | .fstring .. | .list _ | .call .. | .group _ => true
  | _ => false

/-- An expression without operators is fixed unless it can be assigned to. -/
theorem isFixed_eq_not_isTarget {e : Expr} (h : e.isOperation = false) :
    e.isFixed = !e.isTarget := by
  cases e with
  | binary | unary => cases h
  | _ => rfl

end Expr

namespace Grammar

variable {r : Reader} {ts : List Token}

/-! ### Targets by the grammar -/

theorem Forms.isOperation_of_primary {e : Expr} (h : Forms r (.primary e) ts) :
    e.isOperation = false := by
  cases h with
  | ofAtom hatom => cases hatom <;> rfl
  | attr | call | index => rfl

/-- What the grammar asks of the targets of a statement. -/
structure IsBound (s : Stmt) : Prop where
  assigned : ∀ target ∈ s.assigned?, target.isTarget = true
  looped : ∀ target ∈ s.looped?, target.isOperation = false

/-- Most statements have no target. -/
theorem IsBound.of_none {s : Stmt} (hassigned : s.assigned? = none) (hlooped : s.looped? = none) :
    IsBound s :=
  ⟨by simp [hassigned], by simp [hlooped]⟩

/-- The statements in a piece, at any depth, where `outer` are those around it. -/
def Piece.sites (outer : List Stmt) : Piece → List Stmt.Site
  | .statement s => ⟨outer, s⟩ :: Stmt.innerSites (s :: outer) s
  | .block ss | .body ss | .orelse ss => Stmt.blockSites outer ss
  | .alternate a => Stmt.alternateSites outer a

/-- The grammar's demands are met in a piece at every depth. -/
def Piece.IsBound (piece : Piece) : Prop :=
  ∀ outer, ∀ site ∈ piece.sites outer, Grammar.IsBound site.stmt

theorem Simple.isBound {s : Stmt} (h : Simple r s ts) : (Piece.statement s).IsBound := by
  have hinner : IsBound s ∧ ∀ outer, Stmt.innerSites outer s = [] := by
    cases h with
    | @assignment t op target value _ _ _ _ _ htarget =>
        refine ⟨⟨?_, ?_⟩, ?_⟩
        · cases op <;> simpa [assigned, Stmt.assigned?] using htarget
        · cases op <;> simp [assigned, Stmt.looped?]
        · cases op <;> exact fun _ => rfl
    | _ => exact ⟨.of_none rfl rfl, fun _ => rfl⟩
  intro outer site hsite
  rw [Piece.sites, hinner.2, List.mem_singleton] at hsite
  rw [hsite]
  exact hinner.1

/-- A statement meets the demands if it does so itself and its blocks do. -/
theorem Piece.IsBound.statement {s : Stmt} (hs : Grammar.IsBound s)
    (hinner : ∀ outer, ∀ site ∈ Stmt.innerSites outer s, Grammar.IsBound site.stmt) :
    (Piece.statement s).IsBound :=
  fun outer => List.forall_mem_cons.2 ⟨hs, hinner (s :: outer)⟩

theorem Takes.isBound {piece : Piece} {rest : List Token} (h : Takes r piece ts rest) :
    piece.IsBound := by
  induction h with
  | line hsimple _ | semicolon hsimple _ _ => exact hsimple.isBound
  | functionDef _ _ _ _ _ ih | classDef _ _ _ ih => exact .statement (.of_none rfl rfl) ih
  | conditional _ _ _ _ ihbody ihmore | whileLoop _ _ _ _ ihbody ihmore =>
      exact .statement (.of_none rfl rfl) fun outer =>
        List.forall_mem_append.2 ⟨ihbody outer, ihmore outer⟩
  | forLoop _ htarget _ _ _ _ ihbody ihmore =>
      have hoperation := htarget.isOperation_of_primary
      refine .statement ⟨by simp [Stmt.assigned?], by simpa [Stmt.looped?]⟩ fun outer => ?_
      exact List.forall_mem_append.2 ⟨ihbody outer, ihmore outer⟩
  | elseIf _ _ _ _ ihbody ihmore =>
      exact fun outer => List.forall_mem_append.2 ⟨ihbody outer, ihmore outer⟩
  | otherwise _ _ ih | loopElse _ _ ih | block _ _ _ _ ih | bodyNewline _ _ ih => exact ih
  | noAlternate | noLoopElse | bodyEnd | dedent => exact fun _ _ hsite => by cases hsite
  | bodyStatement _ _ ihs ihss =>
      exact fun outer => List.forall_mem_append.2 ⟨ihs outer, ihss outer⟩

theorem FormsProgram.isBound {ss : List Stmt} (h : FormsProgram r ss ts) :
    (Piece.body ss).IsBound := by
  induction h with
  | done => exact fun _ _ hsite => by cases hsite
  | dedent _ _ ih | newline _ _ ih => exact ih
  | statement hs _ ih =>
      exact fun outer => List.forall_mem_append.2 ⟨hs.isBound outer, ih outer⟩

end Grammar

/-! ### Programs -/

/-- **What can be bound.** In a program that is read from a source, the target of an
assignment can always be assigned to, and the target of a loop is without operators.
So all targets can be assigned to if and only if no loop has a literal, an f-string, a
list, a call or an expression in parentheses as its target. -/
theorem isTarget_iff_of_parse {source : String} {p : Program}
    (h : Program.parse source = .ok p) :
    (∀ site ∈ p.sites, ∀ target ∈ site.stmt.assigned?, target.isTarget = true) ∧
    (∀ site ∈ p.sites, ∀ target ∈ site.stmt.looped?, target.isOperation = false) ∧
    ((∀ site ∈ p.sites, ∀ target, site.stmt.Binds target → target.isTarget = true) ↔
      ∀ site ∈ p.sites, ∀ target ∈ site.stmt.looped?, target.isFixed = false) := by
  have hbound : ∀ site ∈ p.sites, Grammar.IsBound site.stmt :=
    (Program.ofTokens_eq_ok_iff.1 h).isBound []
  refine ⟨fun site hsite => (hbound site hsite).assigned,
    fun site hsite => (hbound site hsite).looped, ?_⟩
  constructor
  · intro hall site hsite target htarget
    have hoperation := (hbound site hsite).looped target htarget
    rw [Expr.isFixed_eq_not_isTarget hoperation, hall site hsite target (.inr htarget)]
    rfl
  · intro hfixed site hsite target htarget
    rcases htarget with hassigned | hlooped
    · exact (hbound site hsite).assigned target hassigned
    · have hoperation := (hbound site hsite).looped target hlooped
      have hnot := hfixed site hsite target hlooped
      rw [Expr.isFixed_eq_not_isTarget hoperation] at hnot
      simpa using hnot

/-- A loop over the elements of a list in a call, inside a loop over attributes. -/
def boundPlaces : String :=
  "for a.b in x:\n    for f(c)[i] in y:\n        z[i] += k\n    else:\n        w = k\n"

theorem isTarget_of_boundPlaces :
    ∃ p, Program.parse boundPlaces = .ok p ∧ p.sites.length = 4 ∧
      ∀ site ∈ p.sites, ∀ target, site.stmt.Binds target → target.isTarget = true := by
  have hparse : Program.parse boundPlaces = .ok
      ⟨[.forLoop (.attr (.ident "a") "b") (.ident "x")
        [.forLoop (.index (.call (.ident "f") [.ident "c"]) (.ident "i")) (.ident "y")
          [.augAssign (.index (.ident "z") (.ident "i")) .add (.ident "k")]
          [.assign (.ident "w") (.ident "k")]] []]⟩ :=
    Program.parse_eq_ok (by decide +kernel)
  refine ⟨_, hparse, rfl, (isTarget_iff_of_parse hparse).2.2.2 ?_⟩
  simp [Program.sites, Stmt.blockSites, Stmt.innerSites, Stmt.looped?, Expr.isFixed]

/-- A loop binds a call: this is read, and nothing can be assigned to it. -/
theorem loop_binds_call :
    ∃ p, Program.parse "for f() in x:\n    y\n" = .ok p ∧
      ∃ site ∈ p.sites, ∃ target, site.stmt.Binds target ∧ target.isTarget = false := by
  have hparse : Program.parse "for f() in x:\n    y\n" = .ok
      ⟨[.forLoop (.call (.ident "f") []) (.ident "x") [.expr (.ident "y")] []]⟩ :=
    Program.parse_eq_ok (by decide +kernel)
  exact ⟨_, hparse, _, List.mem_cons_self, _, .inr rfl, rfl⟩

end Offside
