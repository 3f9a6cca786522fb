import Mathlib.Data.List.Forall2
import Offside.Ast.Equality
import Offside.Proofs.Derivation.Nested

/-!
# Offside.Proofs.Bodies

The blocks of a program that has been read are **the pairs** of an `indent` and
its `dedent` among the tokens. Main statement: `bodies_of_parse`.

The bodies of a program are listed in the order in which they open, and so are
the places after the `indent` tokens; the two lists go together one by one. At
each place, reading a block gives the body and stops behind the `dedent` that
belongs to the `indent`, whatever comes after it (`ClosesAtOwn`).
-/

namespace Offside

/-! ### The bodies of a program -/

mutual

/-- The bodies in a statement, in the order in which they open. The `else` block
of a loop is one of them if it is there. -/
def Stmt.bodies : Stmt → List (List Stmt)
  | .functionDef _ _ body | .classDef _ body => body :: blockBodies body
  | .ifElse _ body alternate => body :: (blockBodies body ++ alternateBodies alternate)
  | .whileLoop _ body orelse | .forLoop _ _ body orelse =>
    body :: (blockBodies body ++ ((if orelse.isEmpty then [] else [orelse]) ++ blockBodies orelse))
  | _ => []

/-- The bodies in the rest of a conditional. -/
def Stmt.alternateBodies : Alternate → List (List Stmt)
  | .none => []
  | .elseIf _ body alternate => body :: (blockBodies body ++ alternateBodies alternate)
  | .otherwise body => body :: blockBodies body

/-- The bodies in statements. -/
def Stmt.blockBodies : List Stmt → List (List Stmt)
  | [] => []
  | s :: ss => bodies s ++ blockBodies ss

end

/-- The bodies of the functions, classes, branches and loops of a program. -/
def Program.bodies (p : Program) : List (List Stmt) := Stmt.blockBodies p.statements

/-! ### The places where blocks open -/

/-- Each `indent` with the tokens after it. -/
def Token.blockStarts : List Token → List (Token × List Token)
  | [] => []
  | t :: ts => if t.kind = .indent then (t, ts) :: blockStarts ts else blockStarts ts

/-- There is one place for each `indent`. -/
theorem Token.length_blockStarts (ts : List Token) :
    (blockStarts ts).length = countKind .indent ts := by
  induction ts with
  | nil => rfl
  | cons t ts ih => by_cases h : t.kind = .indent <;> simp_all [blockStarts, countKind]

theorem Token.blockStarts_append {ts : List Token} (h : ∀ t ∈ ts, t.kind ≠ .indent)
    (us : List Token) : blockStarts (ts ++ us) = blockStarts us := by
  induction ts with
  | nil => rfl
  | cons t ts ih =>
      obtain ⟨ht, hts⟩ := List.forall_mem_cons.1 h
      rw [List.cons_append, blockStarts, if_neg ht, ih hts]

namespace Grammar

/-- Reading the block after an `indent` gives `body` and stops behind the
`dedent` that closes this `indent`, whatever comes after it: between the two, all
other blocks are opened and closed. -/
def ClosesAtOwn (ctx : Context) (body : List Stmt) (start : Token × List Token) : Prop :=
  ∃ inner dedent rest, start.2 = inner ++ dedent :: rest ∧
    dedent.kind = .dedent ∧ dedent.text = start.1.text ∧ Token.openIndents inner = some [] ∧
    ∀ more, (blockBody ctx (inner ++ dedent :: more)).run = (.ok body, more)

/-- Reading a program from `ts` comes, between two statements, to `us`. A
`dedent` in this place is passed over. -/
inductive ComesTo (ctx : Context) (ts : List Token) : List Token → Prop where
  | start : ComesTo ctx ts ts
  | dedent {t : Token} {us : List Token} :
      ComesTo ctx ts (t :: us) → t.kind = .dedent → ComesTo ctx ts us
  | item {t : Token} {us rest : List Token} {s : Option Stmt} :
      ComesTo ctx ts (t :: us) → t.kind ≠ .dedent →
      (statement ctx (t :: us)).run = (.ok s, rest) → ComesTo ctx ts rest

/-! ### Blocks open and close in order

`OpensAll` pairs the bodies of a piece with the places where blocks open, by induction
on the derivation.
-/

open Token (openStep blockStarts)

/-- The blocks that open among the tokens are closed there, and they have these
bodies. -/
structure OpensAll (ctx : Context) (bodies : List (List Stmt)) (ts : List Token) : Prop where
  filled : ∀ body ∈ bodies, body ≠ []
  balanced : ∀ opened, ts.foldlM openStep opened = some opened
  starts : ∀ rest, ∃ starts, blockStarts (ts ++ rest) = starts ++ blockStarts rest ∧
    List.Forall₂ (ClosesAtOwn ctx) bodies starts

namespace OpensAll

variable {ctx : Context} {bodies bodies' : List (List Stmt)} {ts us : List Token}

/-- Tokens without blocks open none. -/
theorem of_ne (h : ∀ t ∈ ts, t.kind ≠ .indent ∧ t.kind ≠ .dedent) : OpensAll ctx [] ts := by
  refine ⟨by simp, fun opened => ?_, fun rest => ⟨[], ?_, .nil⟩⟩
  · induction ts with
    | nil => rfl
    | cons t ts ih =>
        obtain ⟨⟨hindent, hdedent⟩, hts⟩ := List.forall_mem_cons.1 h
        rw [List.foldlM_cons, Token.openStep_of_ne hindent hdedent]
        exact ih hts
  · exact Token.blockStarts_append (fun t ht => (h t ht).1) rest

theorem of_isLayout (h : ∀ t ∈ ts, t.kind.isLayout = false) : OpensAll ctx [] ts := by
  refine of_ne fun t ht => ⟨fun hkind => ?_, fun hkind => ?_⟩
  · exact absurd (h t ht) (by simp [hkind])
  · exact absurd (h t ht) (by simp [hkind])

theorem of_is {t : Token} {kind : TokenKind} {text : String} (h : t.is kind text = true)
    (hkind : kind.isLayout = false) : OpensAll ctx [] [t] :=
  of_isLayout (by simpa using isLayout_of_is h hkind)

theorem of_kind {t : Token} (h : t.kind = .identifier ∨ t.kind = .newline) :
    OpensAll ctx [] [t] :=
  of_ne (by rcases h with h | h <;> simp [h])

/-- Blocks one after the other open one after the other. -/
theorem append (hts : OpensAll ctx bodies ts) (hus : OpensAll ctx bodies' us) :
    OpensAll ctx (bodies ++ bodies') (ts ++ us) := by
  refine ⟨List.forall_mem_append.2 ⟨hts.filled, hus.filled⟩, fun opened => ?_, fun rest => ?_⟩
  · rw [List.foldlM_append, hts.balanced opened]
    exact hus.balanced opened
  · obtain ⟨first, hfirst, hbodies⟩ := hts.starts (us ++ rest)
    obtain ⟨second, hsecond, hbodies'⟩ := hus.starts rest
    refine ⟨first ++ second, ?_, List.rel_append hbodies hbodies'⟩
    rw [List.append_assoc, hfirst, hsecond, List.append_assoc]

theorem cons {t : Token} (ht : OpensAll ctx [] [t]) (hts : OpensAll ctx bodies ts) :
    OpensAll ctx bodies (t :: ts) :=
  ht.append hts

/-- One block: its `indent`, its body, its `dedent`. -/
theorem block {indent dedent : Token} {ss : List Stmt} (hindent : indent.kind = .indent)
    (hdedent : dedent.kind = .dedent) (htext : dedent.text = indent.text) (hne : ss ≠ [])
    (hread : ∀ more, (blockBody ctx (ts ++ dedent :: more)).run = (.ok ss, more))
    (h : OpensAll ctx bodies ts) : OpensAll ctx (ss :: bodies) (indent :: (ts ++ [dedent])) := by
  refine ⟨List.forall_mem_cons.2 ⟨hne, h.filled⟩, fun opened => ?_, fun rest => ?_⟩
  · have hopen : openStep opened indent = some (indent :: opened) := by simp [openStep, hindent]
    have hclose : openStep (indent :: opened) dedent = some opened := by
      simp [openStep, hdedent, htext]
    rw [List.foldlM_cons, hopen, Option.bind_eq_bind, Option.bind_some, List.foldlM_append,
      h.balanced]
    simpa using hclose
  · obtain ⟨starts, hstarts, hbodies⟩ := h.starts (dedent :: rest)
    refine ⟨(indent, ts ++ dedent :: rest) :: starts, ?_, .cons ?_ hbodies⟩
    · have hskip : blockStarts (dedent :: rest) = blockStarts rest := by
        simp [blockStarts, hdedent]
      rw [List.cons_append, List.append_assoc, blockStarts, if_pos hindent]
      simp [hstarts, hskip]
    · exact ⟨ts, dedent, rest, rfl, hdedent, htext, h.balanced [], hread⟩

end OpensAll

/-- The bodies in a piece of a program. -/
def Piece.bodies : Piece → List (List Stmt)
  | .statement s => s.bodies
  | .block ss => ss :: Stmt.blockBodies ss
  | .body ss => Stmt.blockBodies ss
  | .alternate a => Stmt.alternateBodies a
  | .orelse ss => (if ss.isEmpty then [] else [ss]) ++ Stmt.blockBodies ss

/-- A block has a statement. -/
theorem Nested.ne_nil {r : Reader} {ss : List Stmt} {ts : List Token}
    (h : Nested r (.block ss) ts) : ss ≠ [] := by
  cases h with
  | block _ _ _ _ _ hne _ => exact hne

/-- A simple statement has no bodies. -/
theorem Simple.bodies_eq_nil {r : Reader} {s : Stmt} {ts : List Token} (h : Simple r s ts) :
    s.bodies = [] := by
  cases h with
  | @assignment _ op => cases op <;> rfl
  | _ => rfl

/-- **The bodies of a piece are the blocks of its tokens, in order.** -/
theorem Nested.opensAll {ctx : Context} {piece : Piece} {ts : List Token}
    (h : Nested ctx.fstring piece ts) : OpensAll ctx piece.bodies ts := by
  induction h with
  | functionDef ht hname hopening hnames _ ih =>
      have hsignature := (OpensAll.of_isLayout hnames.isLayout_eq_false).append ih
      exact .cons (.of_is ht rfl) (.cons (.of_kind (.inl hname)) (.cons (.of_is hopening rfl)
        hsignature))
  | classDef ht hname _ ih => exact .cons (.of_is ht rfl) (.cons (.of_kind (.inl hname)) ih)
  | conditional ht hcondition _ _ ihbody ihmore =>
      have hbranches := ihbody.append ihmore
      exact .cons (.of_is ht rfl)
        ((OpensAll.of_isLayout hcondition.isLayout_eq_false).append hbranches)
  | whileLoop ht hcondition _ _ ihbody ihmore =>
      have hbranches := ihbody.append ihmore
      exact .cons (.of_is ht rfl)
        ((OpensAll.of_isLayout hcondition.isLayout_eq_false).append hbranches)
  | forLoop ht htarget hin hiter _ _ ihbody ihmore =>
      have hiteration := (OpensAll.of_isLayout hiter.isLayout_eq_false).append
        (ihbody.append ihmore)
      exact .cons (.of_is ht rfl) ((OpensAll.of_isLayout htarget.isLayout_eq_false).append
        (.cons (.of_is hin rfl) hiteration))
  | elseIf ht hcondition _ _ ihbody ihmore =>
      have hbranches := ihbody.append ihmore
      exact .cons (.of_is ht rfl)
        ((OpensAll.of_isLayout hcondition.isLayout_eq_false).append hbranches)
  | otherwise ht _ ih => exact .cons (.of_is ht rfl) ih
  | noAlternate => exact .of_ne (by simp)
  | @loopElse _ body _ ht hblock ih =>
      have hbodies : (Piece.orelse body).bodies = (Piece.block body).bodies := by
        simp [Piece.bodies, hblock.ne_nil]
      rw [hbodies]
      exact .cons (.of_is ht rfl) ih
  | noLoopElse => exact .of_ne (by simp)
  | block hcolon hnewline hindent hdedent htext hne hbody ih =>
      refine .cons (.of_is hcolon rfl) (.cons (.of_kind (.inr hnewline)) ?_)
      exact ih.block hindent hdedent htext hne fun more =>
        (hbody.takenBefore.2 _ more hdedent).reads
  | done => exact .of_ne (by simp)
  | newline ht _ ih => exact .cons (.of_kind (.inr ht)) ih
  | line hsimple _ _ ih =>
      rw [Piece.bodies, Stmt.blockBodies, hsimple.bodies_eq_nil]
      exact (OpensAll.of_isLayout hsimple.isLayout_eq_false).append ih
  | semicolon hsimple _ ht _ ih =>
      rw [Piece.bodies, Stmt.blockBodies, hsimple.bodies_eq_nil]
      exact (OpensAll.of_isLayout hsimple.isLayout_eq_false).append (.cons (.of_is ht rfl) ih)
  | compound _ _ ihs ih => exact ihs.append ih

/-! ### Between two statements -/

/-- Wherever the reader stands between two statements, what is left is laid out and
forms a program. -/
theorem ComesTo.laidOut {ctx : Context} {ss : List Stmt} {ts us : List Token}
    (h : ComesTo ctx ts us) (hform : FormsProgram ctx.fstring ss ts) (hts : LaidOut [] ts) :
    LaidOut [] us ∧ ∃ ss', FormsProgram ctx.fstring ss' us := by
  induction h with
  | start => exact ⟨hts, ss, hform⟩
  | dedent _ ht ih =>
      obtain ⟨_, _, _, hcolumns, -⟩ := ih.1.of_dedent ht
      cases hcolumns
  | item _ hkind hrun ih =>
      obtain ⟨hlaid, ss', hform'⟩ := ih
      -- What is read here is what the derivation has in this place.
      cases hform' with
      | dedent ht _ => exact absurd ht hkind
      | newline ht hrest =>
          obtain ⟨-, rfl⟩ := Prod.mk.inj (hrun.symm.trans (run_statement_newline ht _))
          exact ⟨hlaid.of_newline ht, _, hrest⟩
      | statement hs hrest =>
          obtain ⟨-, rfl⟩ := Prod.mk.inj (hrun.symm.trans hs.reads)
          obtain ⟨_, -, hlaid', -⟩ := hs.splits hlaid
          exact ⟨hlaid', _, hrest⟩

end Grammar

theorem Token.laidOut_layout (source : List Char) (line : Nat) :
    Grammar.LaidOut [] (layout line [] (Lexeme.scan source)) :=
  ⟨nests_layout line [] _, opensOnText_layout (Lexeme.isChain_scan source) line []⟩

theorem Token.laidOut_ofProgram (source : List Char) : Grammar.LaidOut [] (ofProgram source) :=
  laidOut_layout source 1

open Token Grammar in
/-- In a source that is read as a program, no body is empty and there are as many
bodies as `indent` tokens. In their order, each body is what is read after its
`indent`, up to the `dedent` that closes this `indent`. Between the statements of
the program itself, reading never comes to a `dedent`. -/
theorem bodies_of_parse {source : String} {p : Program} (h : Program.parse source = .ok p) :
    (∀ body ∈ p.bodies, body ≠ []) ∧
    p.bodies.length = countKind .indent (ofProgram source.toList) ∧
    List.Forall₂ (ClosesAtOwn (Cursor.ofTokens (ofProgram source.toList)).context)
      p.bodies (blockStarts (ofProgram source.toList)) ∧
    ∀ us, ComesTo (Cursor.ofTokens (ofProgram source.toList)).context
        (ofProgram source.toList) us →
      ∀ t ∈ us.head?, t.kind ≠ .dedent := by
  have hform : FormsProgram (Cursor.ofTokens (ofProgram source.toList)).context.fstring
    p.statements (ofProgram source.toList) := Program.ofTokens_eq_ok_iff.1 h
  have hlaid := laidOut_ofProgram source.toList
  have hopens := (hform.nested hlaid).opensAll
  obtain ⟨starts, hstarts, hbodies⟩ := hopens.starts []
  simp only [List.append_nil, blockStarts] at hstarts
  subst hstarts
  refine ⟨hopens.filled, ?_, hbodies, fun us hus t ht hkind => ?_⟩
  · rw [← length_blockStarts]
    exact hbodies.length_eq
  · obtain ⟨vs, rfl⟩ := List.head?_eq_some_iff.1 ht
    obtain ⟨_, _, _, hcolumns, -⟩ := (hus.laidOut hform hlaid).1.of_dedent hkind
    cases hcolumns

/-- A function that searches: four bodies, one of them the `else` block of a
loop. -/
def searchSource : String :=
  "def f(a):\n    for x in a:\n        if x:\n            break\n    else:\n        return a\nf(b)\n"

open Token Grammar in
theorem bodies_of_searchSource :
    ∃ p, Program.parse searchSource = .ok p ∧
      p.bodies.map List.length = [1, 1, 1, 1] ∧
      4 = countKind .indent (ofProgram searchSource.toList) ∧
      List.Forall₂ (ClosesAtOwn (Cursor.ofTokens (ofProgram searchSource.toList)).context)
        p.bodies (blockStarts (ofProgram searchSource.toList)) := by
  have hparse : Program.parse searchSource = .ok
      ⟨[.functionDef "f" ["a"]
          [.forLoop (.ident "x") (.ident "a") [.ifElse (.ident "x") [.breakLoop] .none]
            [.returnValue (some (.ident "a"))]],
        .expr (.call (.ident "f") [.ident "b"])]⟩ :=
    Program.parse_eq_ok (by decide +kernel)
  obtain ⟨-, hcount, hbodies, -⟩ := bodies_of_parse hparse
  exact ⟨_, hparse, rfl, hcount, hbodies⟩

end Offside
