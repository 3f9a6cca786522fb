import Offside.Grammar.Cursor
import Offside.Proofs.Derivation.Expression

/-!
# Offside.Proofs.Derivation.Statement

The grammar of statements as a **relation**. `Takes r piece ts rest` says that a
piece of a program is taken from the front of the tokens `ts` and leaves `rest`.
Main statement: `ofTokens_eq_ok_iff`, by which reading a program is sound and
complete.

Design points:

* Unlike an expression, a statement depends on what follows it: a simple
  statement has to be at its end, a conditional goes on with an `else` if it can,
  and a block may end because there are no more tokens. So the rest is part of
  the relation.
* Line ends between statements belong to the block or the program around them.
-/

namespace Offside.Grammar

/-! ### Simple statements -/

/-- The parts of a dotted name after the first one. -/
inductive MoreParts : List String → List Token → Prop where
  | done : MoreParts [] []
  | next {dot part : Token} {parts : List String} {ts : List Token} :
      dot.kind = .dot → part.kind = .identifier → MoreParts parts ts →
      MoreParts (part.text :: parts) (dot :: part :: ts)

/-- The tokens form a simple statement, without its end. -/
inductive Simple (r : Reader) : Stmt → List Token → Prop where
  | bareReturn {t : Token} : t.is .keyword "return" = true → Simple r (.returnValue none) [t]
  | returnValue {t : Token} {e : Expr} {ts : List Token} :
      t.is .keyword "return" = true → Forms r (.expression 0 e) ts →
      Simple r (.returnValue (some e)) (t :: ts)
  | importModule {t first : Token} {parts : List String} {ts : List Token} :
      t.is .keyword "import" = true → first.kind = .identifier → MoreParts parts ts →
      Simple r (.importModule (first.text :: parts)) (t :: first :: ts)
  | breakLoop {t : Token} : t.is .keyword "break" = true → Simple r .breakLoop [t]
  | continueLoop {t : Token} : t.is .keyword "continue" = true → Simple r .continueLoop [t]
  | pass {t : Token} : t.is .keyword "pass" = true → Simple r .pass [t]
  | expr {e : Expr} {ts : List Token} : Forms r (.expression 0 e) ts → Simple r (.expr e) ts
  | assignment {t : Token} {op : Option AugmentedOp} {target value : Expr} {ts us : List Token} :
      Forms r (.expression 0 target) ts → assignment? t = some op →
      Forms r (.expression 0 value) us → target.isTarget = true →
      Simple r (assigned target value op) (ts ++ t :: us)

/-- The tokens start after a line. -/
def EndsLine (ts : List Token) : Prop := ∀ t ∈ ts.head?, endsStatement t.kind = true

/-- The tokens start at the end of a simple statement. -/
def EndsSimple (ts : List Token) : Prop :=
  ∀ t ∈ ts.head?, endsStatement t.kind = true ∨ t.is .delimiter ";" = true

/-! ### Parameters -/

/-- The parameters after the first one, and the parenthesis that closes them. -/
inductive MoreParameters : List String → List Token → Prop where
  | done {closing : Token} : closing.is .delimiter ")" = true → MoreParameters [] [closing]
  | next {comma name : Token} {names : List String} {ts : List Token} :
      comma.is .delimiter "," = true → name.kind = .identifier → MoreParameters names ts →
      MoreParameters (name.text :: names) (comma :: name :: ts)

/-- The parameters of a function, and the parenthesis that closes them. -/
inductive Parameters : List String → List Token → Prop where
  | none {closing : Token} : closing.is .delimiter ")" = true → Parameters [] [closing]
  | some {name : Token} {names : List String} {ts : List Token} :
      name.kind = .identifier → MoreParameters names ts →
      Parameters (name.text :: names) (name :: ts)

/-! ### Blocks and compound statements -/

/-- A part of a program together with what is read. -/
inductive Piece where
  | statement (s : Stmt)
  /-- A block from its colon on. -/
  | block (ss : List Stmt)
  /-- The statements of a block up to its end. -/
  | body (ss : List Stmt)
  /-- The rest of a conditional. -/
  | alternate (a : Alternate)
  /-- The `else` block of a loop, which may be missing. -/
  | orelse (ss : List Stmt)

/-- A piece of a program is taken from the front of the tokens. -/
inductive Takes (r : Reader) : Piece → List Token → List Token → Prop where
  | line {s : Stmt} {ts rest : List Token} :
      Simple r s ts → EndsLine rest → Takes r (.statement s) (ts ++ rest) rest
  | semicolon {s : Stmt} {t : Token} {ts rest : List Token} :
      Simple r s ts → s ≠ .returnValue none → t.is .delimiter ";" = true →
      Takes r (.statement s) (ts ++ t :: rest) rest
  | functionDef {t name opening : Token} {names : List String} {body : List Stmt}
      {ts us rest : List Token} :
      t.is .keyword "def" = true → name.kind = .identifier →
      opening.is .delimiter "(" = true → Parameters names ts → Takes r (.block body) us rest →
      Takes r (.statement (.functionDef name.text names body))
        (t :: name :: opening :: (ts ++ us)) rest
  | classDef {t name : Token} {body : List Stmt} {ts rest : List Token} :
      t.is .keyword "class" = true → name.kind = .identifier → Takes r (.block body) ts rest →
      Takes r (.statement (.classDef name.text body)) (t :: name :: ts) rest
  | conditional {t : Token} {condition : Expr} {body : List Stmt} {alternate : Alternate}
      {ts us vs rest : List Token} :
      t.is .keyword "if" = true → Forms r (.expression 0 condition) ts →
      Takes r (.block body) us vs → Takes r (.alternate alternate) vs rest →
      Takes r (.statement (.ifElse condition body alternate)) (t :: (ts ++ us)) rest
  | whileLoop {t : Token} {condition : Expr} {body orelse : List Stmt}
      {ts us vs rest : List Token} :
      t.is .keyword "while" = true → Forms r (.expression 0 condition) ts →
      Takes r (.block body) us vs → Takes r (.orelse orelse) vs rest →
      Takes r (.statement (.whileLoop condition body orelse)) (t :: (ts ++ us)) rest
  | forLoop {t isIn : Token} {target iter : Expr} {body orelse : List Stmt}
      {ts us vs ws rest : List Token} :
      t.is .keyword "for" = true → Forms r (.primary target) ts →
      isIn.is .keyword "in" = true → Forms r (.expression 0 iter) us →
      Takes r (.block body) vs ws → Takes r (.orelse orelse) ws rest →
      Takes r (.statement (.forLoop target iter body orelse))
        (t :: (ts ++ isIn :: (us ++ vs))) rest
  | elseIf {t : Token} {condition : Expr} {body : List Stmt} {alternate : Alternate}
      {ts us vs rest : List Token} :
      t.is .keyword "elif" = true → Forms r (.expression 0 condition) ts →
      Takes r (.block body) us vs → Takes r (.alternate alternate) vs rest →
      Takes r (.alternate (.elseIf condition body alternate)) (t :: (ts ++ us)) rest
  | otherwise {t : Token} {body : List Stmt} {ts rest : List Token} :
      t.is .keyword "else" = true → Takes r (.block body) ts rest →
      Takes r (.alternate (.otherwise body)) (t :: ts) rest
  | noAlternate {rest : List Token} :
      (∀ t ∈ rest.head?, t.is .keyword "elif" = false ∧ t.is .keyword "else" = false) →
      Takes r (.alternate .none) rest rest
  | loopElse {t : Token} {body : List Stmt} {ts rest : List Token} :
      t.is .keyword "else" = true → Takes r (.block body) ts rest →
      Takes r (.orelse body) (t :: ts) rest
  | noLoopElse {rest : List Token} :
      (∀ t ∈ rest.head?, t.is .keyword "else" = false) → Takes r (.orelse []) rest rest
  | block {colon newline indent : Token} {ss : List Stmt} {ts rest : List Token} :
      colon.is .delimiter ":" = true → newline.kind = .newline → indent.kind = .indent →
      Takes r (.body ss) ts rest → Takes r (.block ss) (colon :: newline :: indent :: ts) rest
  | bodyEnd : Takes r (.body []) [] []
  | dedent {t : Token} {rest : List Token} :
      t.kind = .dedent → Takes r (.body []) (t :: rest) rest
  | bodyNewline {t : Token} {ss : List Stmt} {ts rest : List Token} :
      t.kind = .newline → Takes r (.body ss) ts rest → Takes r (.body ss) (t :: ts) rest
  | bodyStatement {s : Stmt} {ss : List Stmt} {ts us rest : List Token} :
      Takes r (.statement s) ts us → Takes r (.body ss) us rest →
      Takes r (.body (s :: ss)) ts rest

/-- The tokens form the statements of a program. -/
inductive FormsProgram (r : Reader) : List Stmt → List Token → Prop where
  | done : FormsProgram r [] []
  | dedent {t : Token} {ss : List Stmt} {ts : List Token} :
      t.kind = .dedent → FormsProgram r ss ts → FormsProgram r ss (t :: ts)
  | newline {t : Token} {ss : List Stmt} {ts : List Token} :
      t.kind = .newline → FormsProgram r ss ts → FormsProgram r ss (t :: ts)
  | statement {s : Stmt} {ss : List Stmt} {ts us : List Token} :
      Takes r (.statement s) ts us → FormsProgram r ss us → FormsProgram r (s :: ss) ts

/-! ### Soundness

By the recursion of the reader. Where it depends on what follows a statement, `Takes`
has the rest of the tokens in it.
-/

section

variable {ctx : Context}

/-- A statement ends at the end of its line or at a semicolon. -/
theorem ending_sound {ts rest : List Token} {u : Unit} (h : (ending ts).run = (.ok u, rest)) :
    EndsLine ts ∧ ts = rest ∨ ∃ t, ts = t :: rest ∧ t.is .delimiter ";" = true := by
  cases ts with
  | nil =>
      obtain ⟨-, rfl⟩ := Step.done_eq_ok h
      exact .inl ⟨by simp [EndsLine], rfl⟩
  | cons t us =>
      simp only [ending] at h
      split at h
      · rename_i hends
        obtain ⟨-, rfl⟩ := Step.done_eq_ok h
        exact .inl ⟨by simpa [EndsLine] using hends, rfl⟩
      · split at h
        · rename_i hsemicolon
          rw [Step.run_loosen, Step.run_consume] at h
          obtain ⟨-, rfl⟩ := Step.done_eq_ok h
          exact .inr ⟨t, rfl, hsemicolon⟩
        · cases h

theorem moreParts_sound {ts rest : List Token} {parts : List String}
    (h : (moreParts ctx ts).run = (.ok parts, rest)) :
    ∃ used, ts = used ++ rest ∧ MoreParts parts used := by
  match ts with
  | [] =>
      rw [moreParts] at h
      obtain ⟨rfl, rfl⟩ := Step.done_eq_ok h
      exact ⟨[], rfl, .done⟩
  | t :: us =>
      rw [moreParts] at h
      split at h
      · rename_i hdot
        rw [Step.run_loosen, Step.run_consume] at h
        obtain ⟨part, vs, _, hexpect, hrest⟩ := Step.andThen_eq_ok h
        obtain ⟨more, hmore, rfl⟩ := Step.map_eq_ok hrest
        obtain ⟨rfl, hpart, -⟩ := expect_eq_ok hexpect
        obtain ⟨used, rfl, hparts⟩ := moreParts_sound hmore
        exact ⟨t :: part :: used, rfl, .next hdot hpart hparts⟩
      · obtain ⟨rfl, rfl⟩ := Step.done_eq_ok h
        exact ⟨[], rfl, .done⟩
termination_by ts.length
decreasing_by simp only [List.length_cons]; omega

/-- A bare `return` is read only where the line ends. -/
theorem returned_sound {t : Token} {ts rest : List Token} {s : Stmt}
    (ht : t.is .keyword "return" = true) (h : (returned ctx ts).run = (.ok s, rest)) :
    ∃ used, ts = used ++ rest ∧ Simple ctx.fstring s (t :: used) ∧
      (s = .returnValue none → EndsLine rest) := by
  unfold returned at h
  split at h
  · rename_i hends
    obtain ⟨rfl, rfl⟩ := Step.done_eq_ok h
    refine ⟨[], rfl, .bareReturn ht, fun _ u hu => ?_⟩
    rwa [peek, List.headD_eq_head?_getD, Option.mem_def.1 hu] at hends
  · rw [Step.run_loosen] at h
    obtain ⟨e, he, rfl⟩ := Step.map_eq_ok h
    obtain ⟨used, rfl, hform, -⟩ := expression_sound he
    exact ⟨used, rfl, .returnValue ht hform, by simp⟩

/-- A statement that starts with an expression is an assignment or the expression. -/
theorem expressionStatement_sound {ts rest : List Token} {s : Stmt}
    (h : (expressionStatement ctx ts).run = (.ok s, rest)) :
    ∃ used, ts = used ++ rest ∧ Simple ctx.fstring s used ∧ s ≠ .returnValue none := by
  unfold expressionStatement at h
  obtain ⟨target, us, _, htarget, hrest⟩ := Step.andThen_eq_ok h
  obtain ⟨before, rfl, hbefore, -⟩ := expression_sound htarget
  cases us with
  | nil =>
      obtain ⟨rfl, rfl⟩ := Step.done_eq_ok hrest
      exact ⟨before, rfl, .expr hbefore, by simp⟩
  | cons t vs =>
      simp only [assignment] at hrest
      split at hrest
      · obtain ⟨rfl, rfl⟩ := Step.done_eq_ok hrest
        exact ⟨before, rfl, .expr hbefore, by simp⟩
      · rename_i op hop
        rw [Step.run_loosen, Step.run_consume] at hrest
        obtain ⟨value, ws, _, hvalue, hassigned⟩ := Step.andThen_eq_ok hrest
        obtain ⟨used, rfl, hform, -⟩ := expression_sound hvalue
        split at hassigned
        · rename_i hisTarget
          obtain ⟨rfl, rfl⟩ := Step.done_eq_ok hassigned
          refine ⟨before ++ t :: used, by simp, .assignment hbefore hop hform hisTarget, ?_⟩
          cases op <;> simp [assigned]
        · cases hassigned

/-- **What is read as a simple statement forms it.** -/
theorem simple_sound {ts rest : List Token} {s : Stmt} (h : (simple ctx ts).run = (.ok s, rest)) :
    ∃ used, ts = used ++ rest ∧ Simple ctx.fstring s used ∧
      (s = .returnValue none → EndsLine rest) := by
  cases ts with
  | nil =>
      obtain ⟨used, hts, hsimple, hne⟩ := expressionStatement_sound h
      exact ⟨used, hts, hsimple, fun hs => absurd hs hne⟩
  | cons t us =>
      simp only [simple] at h
      split at h
      · rename_i ht
        rw [Step.run_consume] at h
        obtain ⟨used, rfl, hsimple, hends⟩ := returned_sound ht h
        exact ⟨t :: used, rfl, hsimple, hends⟩
      · split at h
        · rename_i ht
          rw [Step.run_consume] at h
          obtain ⟨first, vs, _, hexpect, hrest⟩ := Step.andThen_eq_ok h
          obtain ⟨parts, hmore, rfl⟩ := Step.map_eq_ok hrest
          obtain ⟨rfl, hfirst, -⟩ := expect_eq_ok hexpect
          obtain ⟨used, rfl, hparts⟩ := moreParts_sound hmore
          exact ⟨t :: first :: used, rfl, .importModule ht hfirst hparts, by simp⟩
        · split at h
          · rename_i ht
            obtain ⟨rfl, rfl⟩ := Step.done_eq_ok h
            exact ⟨[t], rfl, .breakLoop ht, by simp⟩
          · split at h
            · rename_i ht
              obtain ⟨rfl, rfl⟩ := Step.done_eq_ok h
              exact ⟨[t], rfl, .continueLoop ht, by simp⟩
            · split at h
              · rename_i ht
                obtain ⟨rfl, rfl⟩ := Step.done_eq_ok h
                exact ⟨[t], rfl, .pass ht, by simp⟩
              · obtain ⟨used, hts, hsimple, hne⟩ := expressionStatement_sound h
                exact ⟨used, hts, hsimple, fun hs => absurd hs hne⟩

theorem moreParameters_sound {ts rest : List Token} {names : List String}
    (h : (moreParameters ctx ts).run = (.ok names, rest)) :
    ∃ used, ts = used ++ rest ∧ MoreParameters names used := by
  match ts with
  | [] =>
      rw [moreParameters] at h
      cases h
  | t :: us =>
      rw [moreParameters] at h
      split at h
      · rename_i hcomma
        rw [Step.run_consume] at h
        obtain ⟨name, vs, _, hexpect, hrest⟩ := Step.andThen_eq_ok h
        obtain ⟨more, hmore, rfl⟩ := Step.map_eq_ok hrest
        obtain ⟨rfl, hname, -⟩ := expect_eq_ok hexpect
        obtain ⟨used, rfl, hnames⟩ := moreParameters_sound hmore
        exact ⟨t :: name :: used, rfl, .next hcomma hname hnames⟩
      · obtain ⟨closing, hexpect, rfl⟩ := Step.map_eq_ok h
        obtain ⟨hts, hclosing⟩ := expect_text_eq_ok hexpect
        exact ⟨[closing], hts, .done hclosing⟩
termination_by ts.length
decreasing_by simp only [List.length_cons]; omega

theorem parameters_sound {ts rest : List Token} {names : List String}
    (h : (parameters ctx ts).run = (.ok names, rest)) :
    ∃ used, ts = used ++ rest ∧ Parameters names used := by
  unfold parameters at h
  split at h
  · obtain ⟨closing, hexpect, rfl⟩ := Step.map_eq_ok h
    obtain ⟨hts, hclosing⟩ := expect_text_eq_ok hexpect
    exact ⟨[closing], hts, .none hclosing⟩
  · obtain ⟨name, us, _, hexpect, hrest⟩ := Step.andThen_eq_ok h
    obtain ⟨more, hmore, rfl⟩ := Step.map_eq_ok hrest
    obtain ⟨rfl, hname, -⟩ := expect_eq_ok hexpect
    obtain ⟨used, rfl, hnames⟩ := moreParameters_sound hmore
    exact ⟨name :: used, rfl, .some hname hnames⟩

/-- What reading a statement, or a line end in its place, says about the
tokens. -/
def TakesItem (r : Reader) : Option Stmt → List Token → List Token → Prop
  | none, ts, rest => ∃ t, ts = t :: rest ∧ t.kind = .newline
  | some s, ts, rest => Takes r (.statement s) ts rest

/-- A simple statement with what ends it is taken whole. -/
theorem simple_ending_sound {ts us rest : List Token} {s : Stmt} {u : Unit}
    (hsimple : (simple ctx ts).run = (.ok s, us)) (hending : (ending us).run = (.ok u, rest)) :
    Takes ctx.fstring (.statement s) ts rest := by
  obtain ⟨used, rfl, hform, hreturn⟩ := simple_sound hsimple
  rcases ending_sound hending with ⟨hends, rfl⟩ | ⟨t, rfl, hsemicolon⟩
  · exact .line hform hends
  · -- A `return` before a semicolon would have read it as the start of its value.
    refine .semicolon hform (fun hs => ?_) hsemicolon
    have hends := hreturn hs t rfl
    rw [(Token.is_iff.1 hsemicolon).1] at hends
    cases hends

mutual

/-- **What is read as a statement forms it**, with its blocks. -/
theorem statement_sound {ts rest : List Token} {s : Option Stmt}
    (h : (statement ctx ts).run = (.ok s, rest)) : TakesItem ctx.fstring s ts rest := by
  match ts with
  | [] =>
      rw [statement] at h
      obtain ⟨stmt, hsimple, rfl⟩ := Step.map_eq_ok h
      obtain ⟨used, hts, hform, -⟩ := simple_sound hsimple
      obtain ⟨rfl, rfl⟩ := List.append_eq_nil_iff.1 hts.symm
      exact .line hform (by simp [EndsLine])
  | t :: us =>
      rw [statement] at h
      split at h
      · rename_i hnewline
        rw [Step.run_consume] at h
        obtain ⟨rfl, rfl⟩ := Step.done_eq_ok h
        exact ⟨t, rfl, hnewline⟩
      · split at h
        · rename_i ht
          rw [Step.run_consume] at h
          obtain ⟨stmt, hdef, rfl⟩ := Step.map_eq_ok h
          exact functionDef_sound ht hdef
        · split at h
          · rename_i ht
            rw [Step.run_consume] at h
            obtain ⟨stmt, hclass, rfl⟩ := Step.map_eq_ok h
            exact classDef_sound ht hclass
          · split at h
            · rename_i ht
              rw [Step.run_consume] at h
              obtain ⟨stmt, hif, rfl⟩ := Step.map_eq_ok h
              exact conditional_sound ht hif
            · split at h
              · rename_i ht
                rw [Step.run_consume] at h
                obtain ⟨stmt, hfor, rfl⟩ := Step.map_eq_ok h
                exact forLoop_sound ht hfor
              · split at h
                · rename_i ht
                  rw [Step.run_consume] at h
                  obtain ⟨stmt, hwhile, rfl⟩ := Step.map_eq_ok h
                  exact whileLoop_sound ht hwhile
                · obtain ⟨stmt, vs, _, hsimple, hrest⟩ := Step.andThen_eq_ok h
                  obtain ⟨u, hending, rfl⟩ := Step.map_eq_ok hrest
                  exact simple_ending_sound hsimple hending
termination_by 2 * ts.length
decreasing_by all_goals simp only [List.length_cons]; omega

theorem block_sound {ts rest : List Token} {ss : List Stmt}
    (h : (block ctx ts).run = (.ok ss, rest)) : Takes ctx.fstring (.block ss) ts rest := by
  rw [block] at h
  obtain ⟨colon, us, _, hfirst, h⟩ := Step.andThen_eq_ok h
  obtain ⟨newline, vs, _, hsecond, h⟩ := Step.andThen_eq_ok h
  obtain ⟨indent, ws, _, hthird, hbody⟩ := Step.andThen_eq_ok h
  have hstatements := blockBody_sound hbody
  obtain ⟨rfl, hcolon⟩ := expect_text_eq_ok hfirst
  obtain ⟨rfl, hnewline, -⟩ := expect_eq_ok hsecond
  obtain ⟨rfl, hindent, -⟩ := expect_eq_ok hthird
  exact .block hcolon hnewline hindent hstatements
termination_by 2 * ts.length
decreasing_by omega

theorem blockBody_sound {ts rest : List Token} {ss : List Stmt}
    (h : (blockBody ctx ts).run = (.ok ss, rest)) : Takes ctx.fstring (.body ss) ts rest := by
  match ts with
  | [] =>
      rw [blockBody] at h
      obtain ⟨rfl, rfl⟩ := Step.done_eq_ok h
      exact .bodyEnd
  | t :: us =>
      rw [blockBody] at h
      split at h
      · rename_i hdedent
        rw [Step.run_loosen, Step.run_consume] at h
        obtain ⟨rfl, rfl⟩ := Step.done_eq_ok h
        exact .dedent hdedent
      · rw [Step.run_loosen] at h
        obtain ⟨s, vs, hle, hitem, hrest⟩ := Step.andThen_eq_ok h
        obtain ⟨more, hmore, rfl⟩ := Step.map_eq_ok hrest
        have hbody := blockBody_sound hmore
        cases s with
        | none =>
            obtain ⟨u, hts, hnewline⟩ := statement_sound hitem
            rw [hts]
            exact .bodyNewline hnewline hbody
        | some s => exact .bodyStatement (statement_sound hitem) hbody
termination_by 2 * ts.length + 1
decreasing_by all_goals omega

theorem functionDef_sound {t : Token} {ts rest : List Token} {s : Stmt}
    (ht : t.is .keyword "def" = true) (h : (functionDef ctx ts).run = (.ok s, rest)) :
    Takes ctx.fstring (.statement s) (t :: ts) rest := by
  rw [functionDef] at h
  obtain ⟨name, us, _, hfirst, h⟩ := Step.andThen_eq_ok h
  obtain ⟨opening, vs, _, hsecond, h⟩ := Step.andThen_eq_ok h
  obtain ⟨names, ws, _, hnames, h⟩ := Step.andThen_eq_ok h
  obtain ⟨body, hbody, rfl⟩ := Step.map_eq_ok h
  have hblock := block_sound hbody
  obtain ⟨rfl, hname, -⟩ := expect_eq_ok hfirst
  obtain ⟨rfl, hopening⟩ := expect_text_eq_ok hsecond
  obtain ⟨params, rfl, hparams⟩ := parameters_sound hnames
  exact .functionDef ht hname hopening hparams hblock
termination_by 2 * ts.length
decreasing_by omega

theorem classDef_sound {t : Token} {ts rest : List Token} {s : Stmt}
    (ht : t.is .keyword "class" = true) (h : (classDef ctx ts).run = (.ok s, rest)) :
    Takes ctx.fstring (.statement s) (t :: ts) rest := by
  rw [classDef] at h
  obtain ⟨name, us, _, hfirst, h⟩ := Step.andThen_eq_ok h
  obtain ⟨body, hbody, rfl⟩ := Step.map_eq_ok h
  have hblock := block_sound hbody
  obtain ⟨rfl, hname, -⟩ := expect_eq_ok hfirst
  exact .classDef ht hname hblock
termination_by 2 * ts.length
decreasing_by omega

theorem conditional_sound {t : Token} {ts rest : List Token} {s : Stmt}
    (ht : t.is .keyword "if" = true) (h : (conditional ctx ts).run = (.ok s, rest)) :
    Takes ctx.fstring (.statement s) (t :: ts) rest := by
  rw [conditional] at h
  obtain ⟨condition, us, _, hcondition, h⟩ := Step.andThen_eq_ok h
  obtain ⟨body, vs, _, hbody, h⟩ := Step.andThen_eq_ok h
  obtain ⟨alternate, halternate, rfl⟩ := Step.map_eq_ok h
  have hblock := block_sound hbody
  have hmore := alternate_sound halternate
  obtain ⟨used, rfl, hform, -⟩ := expression_sound hcondition
  exact .conditional ht hform hblock hmore
termination_by 2 * ts.length
decreasing_by all_goals omega

/-- What follows the body of a conditional: another condition, an `else` block or
nothing. -/
theorem alternate_sound {ts rest : List Token} {a : Alternate}
    (h : (alternate ctx ts).run = (.ok a, rest)) : Takes ctx.fstring (.alternate a) ts rest := by
  match ts with
  | [] =>
      rw [alternate] at h
      obtain ⟨rfl, rfl⟩ := Step.done_eq_ok h
      exact .noAlternate (by simp)
  | t :: us =>
      rw [alternate] at h
      split at h
      · rename_i ht
        rw [Step.run_loosen, Step.run_consume] at h
        obtain ⟨condition, vs, _, hcondition, h⟩ := Step.andThen_eq_ok h
        obtain ⟨body, ws, _, hbody, h⟩ := Step.andThen_eq_ok h
        obtain ⟨more, halternate, rfl⟩ := Step.map_eq_ok h
        have hblock := block_sound hbody
        have hmore := alternate_sound halternate
        obtain ⟨used, rfl, hform, -⟩ := expression_sound hcondition
        exact .elseIf ht hform hblock hmore
      · rename_i helif
        split at h
        · rename_i ht
          rw [Step.run_loosen, Step.run_consume] at h
          obtain ⟨body, hbody, rfl⟩ := Step.map_eq_ok h
          exact .otherwise ht (block_sound hbody)
        · rename_i helse
          obtain ⟨rfl, rfl⟩ := Step.done_eq_ok h
          exact .noAlternate (by simp [helif, helse])
termination_by 2 * ts.length
decreasing_by all_goals simp only [List.length_cons]; omega

theorem loopElse_sound {ts rest : List Token} {ss : List Stmt}
    (h : (loopElse ctx ts).run = (.ok ss, rest)) : Takes ctx.fstring (.orelse ss) ts rest := by
  match ts with
  | [] =>
      rw [loopElse] at h
      obtain ⟨rfl, rfl⟩ := Step.done_eq_ok h
      exact .noLoopElse (by simp)
  | t :: us =>
      rw [loopElse] at h
      split at h
      · rename_i ht
        rw [Step.run_loosen, Step.run_consume] at h
        exact .loopElse ht (block_sound h)
      · rename_i helse
        obtain ⟨rfl, rfl⟩ := Step.done_eq_ok h
        exact .noLoopElse (by simp [helse])
termination_by 2 * ts.length
decreasing_by simp only [List.length_cons]; omega

theorem forLoop_sound {t : Token} {ts rest : List Token} {s : Stmt}
    (ht : t.is .keyword "for" = true) (h : (forLoop ctx ts).run = (.ok s, rest)) :
    Takes ctx.fstring (.statement s) (t :: ts) rest := by
  rw [forLoop] at h
  obtain ⟨target, us, _, hfirst, h⟩ := Step.andThen_eq_ok h
  obtain ⟨isIn, vs, _, hsecond, h⟩ := Step.andThen_eq_ok h
  obtain ⟨iter, ws, _, hthird, h⟩ := Step.andThen_eq_ok h
  obtain ⟨body, xs, _, hbody, h⟩ := Step.andThen_eq_ok h
  obtain ⟨orelse, horelse, rfl⟩ := Step.map_eq_ok h
  have hblock := block_sound hbody
  have hmore := loopElse_sound horelse
  obtain ⟨before, rfl, htarget, -⟩ := primary_sound hfirst
  obtain ⟨rfl, hin⟩ := expect_text_eq_ok hsecond
  obtain ⟨used, rfl, hiter, -⟩ := expression_sound hthird
  exact .forLoop ht htarget hin hiter hblock hmore
termination_by 2 * ts.length
decreasing_by all_goals omega

theorem whileLoop_sound {t : Token} {ts rest : List Token} {s : Stmt}
    (ht : t.is .keyword "while" = true) (h : (whileLoop ctx ts).run = (.ok s, rest)) :
    Takes ctx.fstring (.statement s) (t :: ts) rest := by
  rw [whileLoop] at h
  obtain ⟨condition, us, _, hcondition, h⟩ := Step.andThen_eq_ok h
  obtain ⟨body, vs, _, hbody, h⟩ := Step.andThen_eq_ok h
  obtain ⟨orelse, horelse, rfl⟩ := Step.map_eq_ok h
  have hblock := block_sound hbody
  have hmore := loopElse_sound horelse
  obtain ⟨used, rfl, hform, -⟩ := expression_sound hcondition
  exact .whileLoop ht hform hblock hmore
termination_by 2 * ts.length
decreasing_by all_goals omega

end

/-- **What is read as a program forms it, and nothing is left.** -/
theorem program_sound {ts rest : List Token} {ss : List Stmt}
    (h : (program ctx ts).run = (.ok ss, rest)) : FormsProgram ctx.fstring ss ts ∧ rest = [] := by
  match ts with
  | [] =>
      rw [program] at h
      obtain ⟨rfl, rfl⟩ := Step.done_eq_ok h
      exact ⟨.done, rfl⟩
  | t :: us =>
      rw [program] at h
      split at h
      · rename_i hdedent
        rw [Step.run_loosen, Step.run_consume] at h
        obtain ⟨hprogram, hrest⟩ := program_sound h
        exact ⟨.dedent hdedent hprogram, hrest⟩
      · rw [Step.run_loosen] at h
        obtain ⟨s, vs, hle, hitem, h⟩ := Step.andThen_eq_ok h
        obtain ⟨more, hmore, rfl⟩ := Step.map_eq_ok h
        obtain ⟨hprogram, hrest⟩ := program_sound hmore
        cases s with
        | none =>
            obtain ⟨u, hts, hnewline⟩ := statement_sound hitem
            rw [hts]
            exact ⟨.newline hnewline hprogram, hrest⟩
        | some s => exact ⟨.statement (statement_sound hitem) hprogram, hrest⟩
termination_by ts.length
decreasing_by
  · exact hle
  · exact Nat.lt_succ_self _

end

/-! ### How statements start and end

The reader chooses by the first token and stops by the token after a statement, so for
completeness both must be known.
-/

/-- A token starts a simple statement. -/
def startsSimple (t : Token) : Bool :=
  startsExpression t ||
    (t.kind = .keyword && t.text ∈ ["return", "import", "break", "continue", "pass"])

/-- A token starts a statement. -/
def startsStatement (t : Token) : Bool :=
  startsSimple t || (t.kind = .keyword && t.text ∈ ["def", "class", "if", "for", "while"])

/-- Every simple statement has a first token, by which it is told from a compound one. -/
theorem Simple.exists_cons {r : Reader} {s : Stmt} {ts : List Token} (h : Simple r s ts) :
    ∃ t us, ts = t :: us ∧ startsSimple t = true := by
  cases h with
  | bareReturn ht | returnValue ht | importModule ht | breakLoop ht | continueLoop ht | pass ht =>
      obtain ⟨hkind, htext⟩ := Token.is_iff.1 ht
      exact ⟨_, _, rfl, by simp [startsSimple, hkind, htext]⟩
  | expr he =>
      obtain ⟨t, us, rfl, hstart⟩ := he.exists_cons
      exact ⟨t, us, rfl, Bool.or_eq_true_iff.2 (.inl hstart)⟩
  | assignment htarget =>
      obtain ⟨t, us, rfl, hstart⟩ := htarget.exists_cons
      exact ⟨t, _, rfl, Bool.or_eq_true_iff.2 (.inl hstart)⟩

/-- Every statement has a first token, by which it is told from the end of a body. -/
theorem Takes.exists_cons {r : Reader} {s : Stmt} {ts rest : List Token}
    (h : Takes r (.statement s) ts rest) : ∃ t us, ts = t :: us ∧ startsStatement t = true := by
  cases h with
  | line hsimple | semicolon hsimple =>
      obtain ⟨t, us, rfl, hstart⟩ := hsimple.exists_cons
      exact ⟨t, _, rfl, Bool.or_eq_true_iff.2 (.inl hstart)⟩
  | functionDef ht | classDef ht | conditional ht | whileLoop ht | forLoop ht =>
      obtain ⟨hkind, htext⟩ := Token.is_iff.1 ht
      exact ⟨_, _, rfl, by simp [startsStatement, hkind, htext]⟩

/-- No further branch of a conditional or a loop comes next. -/
def NoElse (ts : List Token) : Prop :=
  ∀ t ∈ ts.head?, t.is .keyword "elif" = false ∧ t.is .keyword "else" = false

theorem NoElse.of_kind {t : Token} (h : t.kind ≠ .keyword) (ts : List Token) :
    NoElse (t :: ts) := by
  rintro _ ⟨⟩
  simp [Token.is, h]

/-- A statement starts with neither `elif` nor `else`. -/
theorem Takes.noElse_statement {r : Reader} {s : Stmt} {ts rest : List Token}
    (h : Takes r (.statement s) ts rest) : NoElse ts := by
  obtain ⟨t, us, rfl, hstart⟩ := h.exists_cons
  rintro _ ⟨⟩
  exact ⟨is_eq_false_of_class hstart _ _ rfl, is_eq_false_of_class hstart _ _ rfl⟩

theorem Takes.noElse_body {r : Reader} {ss : List Stmt} {ts rest : List Token}
    (h : Takes r (.body ss) ts rest) : NoElse ts := by
  cases h with
  | bodyEnd => simp [NoElse]
  | dedent ht | bodyNewline ht => exact .of_kind (by simp [ht]) _
  | bodyStatement hs => exact hs.noElse_statement

theorem FormsProgram.noElse {r : Reader} {ss : List Stmt} {ts : List Token}
    (h : FormsProgram r ss ts) : NoElse ts := by
  cases h with
  | done => simp [NoElse]
  | dedent ht | newline ht => exact .of_kind (by simp [ht]) _
  | statement hs => exact hs.noElse_statement

theorem endsStatement_of_startsStatement {t : Token} (h : startsStatement t = true) :
    endsStatement t.kind = false := by
  obtain ⟨kind, text, line⟩ := t
  cases kind with
  | newline | dedent | eof =>
      simp [startsStatement, startsSimple, startsExpression, startsAtom, unaryOp?, Token.is] at h
  | _ => rfl

theorem EndsLine.endsSimple {ts : List Token} (h : EndsLine ts) : EndsSimple ts :=
  fun t ht => .inl (h t ht)

theorem endsSimple_semicolon {t : Token} (h : t.is .delimiter ";" = true) (ts : List Token) :
    EndsSimple (t :: ts) := by
  rintro _ ⟨⟩
  exact .inr h

/-- The kinds of token at the end of a simple statement. -/
theorem EndsSimple.kind {ts : List Token} (h : EndsSimple ts) {t : Token} (ht : t ∈ ts.head?) :
    t.kind = .newline ∨ t.kind = .dedent ∨ t.kind = .eof ∨
      t.kind = .delimiter ∧ t.text = ";" := by
  rcases h t ht with hends | hsemicolon
  · simp only [endsStatement, decide_eq_true_eq] at hends
    rcases hends with h | h | h <;> simp [h]
  · exact .inr (.inr (.inr (Token.is_iff.1 hsemicolon)))

/-- What ends a statement ends the expression in front of it. -/
theorem EndsSimple.ends {ts : List Token} (h : EndsSimple ts) : Ends 0 ts := by
  constructor
  · intro t ht
    rcases h.kind ht with hkind | hkind | hkind | ⟨hkind, htext⟩ <;>
      simp_all [startsTrailer, Token.is]
  · intro t ht op hop
    rcases h.kind ht with hkind | hkind | hkind | ⟨hkind, htext⟩ <;>
      simp [binaryOp?, hkind] at hop

/-- What ends a statement is no sign of an assignment. -/
theorem EndsSimple.assignment?_eq_none {ts : List Token} (h : EndsSimple ts) {t : Token}
    (ht : t ∈ ts.head?) : assignment? t = none := by
  have hkind : t.kind ≠ .operator := by
    rcases h.kind ht with hkind | hkind | hkind | ⟨hkind, -⟩ <;> simp [hkind]
  rw [assignment?, if_neg hkind]

/-- An assignment is no operation. -/
theorem ends_assignment {t : Token} {op : Option AugmentedOp} (h : assignment? t = some op)
    (m : Nat) (ts : List Token) : Ends m (t :: ts) := by
  have hkind : t.kind = .operator := by
    unfold assignment? at h
    split at h
    · assumption
    · cases h
  have hop : binaryOp? t = none := by
    simp only [assignment?, hkind, if_true] at h
    simp only [binaryOp?, hkind]
    split at h
    · -- No symbol of an augmented assignment is that of an operation, nor is `=`.
      rename_i augmented haug
      have hsymbol : augmented.symbol = t.text := by
        simpa using List.find?_some haug
      rw [← hsymbol]
      cases augmented <;> decide
    · split at h
      · rename_i htext
        rw [htext]
        decide
      · cases h
  constructor
  · rintro _ ⟨⟩
    simp [startsTrailer, Token.is, hkind]
  · rintro _ ⟨⟩ op' hop'
    rw [hop] at hop'
    cases hop'

/-! ### Completeness

By induction on the derivation, one `run` lemma for each form of statement.
-/

section

variable {ctx : Context}

theorem MoreParts.run {parts : List String} {ts rest : List Token} (h : MoreParts parts ts)
    (hrest : ∀ t ∈ rest.head?, t.kind ≠ .dot) :
    (moreParts ctx (ts ++ rest)).run = (.ok parts, rest) := by
  induction h with
  | done =>
      cases rest with
      | nil => rw [List.nil_append, moreParts, Step.run_done]
      | cons t us => rw [List.nil_append, moreParts, if_neg (hrest t rfl), Step.run_done]
  | next hdot hpart _ ih =>
      rw [List.cons_append, List.cons_append, moreParts, if_pos hdot, Step.run_loosen,
        Step.run_consume]
      obtain ⟨_, hrun⟩ := Step.run_andThen_of_ok (run_expect_kind ctx.endLine hpart _) _
      exact hrun.trans (Step.run_map_of_ok ih _)

/-- At the end of a line, `return` is bare. -/
theorem run_returned_none {rest : List Token} (h : EndsLine rest) :
    (returned ctx rest).run = (.ok (.returnValue none), rest) := by
  have hends : endsStatement (peek ctx.endLine rest).kind = true := by
    cases rest with
    | nil => rfl
    | cons t us => exact h t rfl
  rw [returned, if_pos hends, Step.run_done]

theorem run_returned_some {e : Expr} {ts rest : List Token}
    (h : Forms ctx.fstring (.expression 0 e) ts) (hrest : Ends 0 rest) :
    (returned ctx (ts ++ rest)).run = (.ok (.returnValue (some e)), rest) := by
  have hrun := h.run_expression hrest
  obtain ⟨t, us, rfl, hstart⟩ := h.exists_cons
  have hends : endsStatement t.kind = false :=
    endsStatement_of_startsStatement
      (by simp_all [startsStatement, startsSimple, Phrase.startsWith])
  rw [returned, if_neg (by simp [peek, hends]), Step.run_loosen]
  exact Step.run_map_of_ok hrun _

/-- An expression before a sign of assignment is a target. -/
theorem run_assignment {ts rest : List Token} {line : Nat} {t : Token} {op : Option AugmentedOp}
    {target value : Expr} (hop : assignment? t = some op)
    (hvalue : Forms ctx.fstring (.expression 0 value) ts) (htarget : target.isTarget = true)
    (hrest : Ends 0 rest) :
    (assignment ctx line target (t :: (ts ++ rest))).run =
      (.ok (assigned target value op), rest) := by
  simp only [assignment, hop, Step.run_loosen, Step.run_consume]
  obtain ⟨_, hrun⟩ := Step.run_andThen_of_ok (hvalue.run_expression hrest) _
  rw [hrun, if_pos htarget, Step.run_done]

/-- An expression before the end of the statement is the statement. -/
theorem run_assignment_none {rest : List Token} {line : Nat} {e : Expr} (h : EndsSimple rest) :
    (assignment ctx line e rest).run = (.ok (.expr e), rest) := by
  cases rest with
  | nil => rfl
  | cons t us => simp only [assignment, h.assignment?_eq_none rfl, Step.run_done]

/-- No keyword starts an expression statement, so the reader comes to its last case. -/
theorem simple_of_startsExpression {t : Token} (h : startsExpression t = true) (ts : List Token) :
    simple ctx (t :: ts) = expressionStatement ctx (t :: ts) := by
  simp only [simple, is_eq_false_of_class h .keyword "return" rfl,
    is_eq_false_of_class h .keyword "import" rfl,
    is_eq_false_of_class h .keyword "break" rfl,
    is_eq_false_of_class h .keyword "continue" rfl,
    is_eq_false_of_class h .keyword "pass" rfl]
  rfl

/-- Tokens that form a simple statement are read as that statement. -/
theorem Simple.run {s : Stmt} {ts rest : List Token} (h : Simple ctx.fstring s ts)
    (hrest : EndsSimple rest) (hreturn : s = .returnValue none → EndsLine rest) :
    (simple ctx (ts ++ rest)).run = (.ok s, rest) := by
  cases h with
  | bareReturn ht =>
      simp only [List.singleton_append, simple, ht, if_true, Step.run_consume]
      exact run_returned_none (hreturn rfl)
  | returnValue ht he =>
      simp only [List.cons_append, simple, ht, if_true, Step.run_consume]
      exact run_returned_some he hrest.ends
  | importModule ht hfirst hparts =>
      have hdot : ∀ t ∈ rest.head?, t.kind ≠ .dot := by
        intro t ht
        rcases hrest.kind ht with hkind | hkind | hkind | ⟨hkind, -⟩ <;> simp [hkind]
      obtain ⟨hkind, htext⟩ := Token.is_iff.1 ht
      simp only [List.cons_append, simple, Token.is, hkind, htext]
      obtain ⟨_, hrun⟩ := Step.run_andThen_of_ok (run_expect_kind ctx.endLine hfirst _) _
      exact hrun.trans (Step.run_map_of_ok (hparts.run hdot) _)
  | breakLoop ht | continueLoop ht | pass ht =>
      obtain ⟨hkind, htext⟩ := Token.is_iff.1 ht
      simp [simple, Token.is, hkind, htext]
  | expr he =>
      have hrun := he.run_expression hrest.ends
      obtain ⟨t, us, rfl, hstart⟩ := he.exists_cons
      rw [List.cons_append, simple_of_startsExpression hstart, expressionStatement]
      obtain ⟨_, hrun'⟩ := Step.run_andThen_of_ok hrun _
      exact hrun'.trans (run_assignment_none hrest)
  | assignment htarget hop hvalue hisTarget =>
      have hrun := fun us => htarget.run_expression (ends_assignment hop 0 us)
      obtain ⟨t, us, rfl, hstart⟩ := htarget.exists_cons
      rw [List.append_assoc, List.cons_append, List.cons_append,
        simple_of_startsExpression hstart, expressionStatement]
      obtain ⟨_, hrun'⟩ := Step.run_andThen_of_ok (hrun _) _
      exact hrun'.trans (run_assignment hop hvalue hisTarget hrest.ends)

theorem MoreParameters.run {names : List String} {ts : List Token} (h : MoreParameters names ts)
    (rest : List Token) : (moreParameters ctx (ts ++ rest)).run = (.ok names, rest) := by
  induction h with
  | done hclosing =>
      have htext := (Token.is_iff.1 hclosing).2
      rw [List.singleton_append, moreParameters, if_neg (by simp [Token.is, htext])]
      exact Step.run_map_of_ok (run_expect_text ctx.endLine hclosing rest) _
  | next hcomma hname _ ih =>
      rw [List.cons_append, List.cons_append, moreParameters, if_pos hcomma, Step.run_consume]
      obtain ⟨_, hrun⟩ := Step.run_andThen_of_ok (run_expect_kind ctx.endLine hname _) _
      exact hrun.trans (Step.run_map_of_ok ih _)

theorem Parameters.run {names : List String} {ts : List Token} (h : Parameters names ts)
    (rest : List Token) : (parameters ctx (ts ++ rest)).run = (.ok names, rest) := by
  cases h with
  | none hclosing =>
      rw [List.singleton_append, parameters, peek_cons, if_pos hclosing]
      exact Step.run_map_of_ok (run_expect_text ctx.endLine hclosing rest) _
  | some hname hnames =>
      rw [List.cons_append, parameters, peek_cons, if_neg (by simp [Token.is, hname])]
      obtain ⟨_, hrun⟩ := Step.run_andThen_of_ok (run_expect_kind ctx.endLine hname _) _
      exact hrun.trans (Step.run_map_of_ok (hnames.run rest) _)

theorem run_ending_line {rest : List Token} (h : EndsLine rest) :
    (ending rest).run = (.ok (), rest) := by
  cases rest with
  | nil => rfl
  | cons t us => simp only [ending, h t rfl, if_true, Step.run_done]

theorem run_ending_semicolon {t : Token} (h : t.is .delimiter ";" = true) (rest : List Token) :
    (ending (t :: rest)).run = (.ok (), rest) := by
  have hkind := (Token.is_iff.1 h).1
  simp only [ending, endsStatement, hkind, h]
  rfl

/-- A line end alone is passed over. -/
theorem run_statement_newline {t : Token} (h : t.kind = .newline) (ts : List Token) :
    (statement ctx (t :: ts)).run = (.ok none, ts) := by
  rw [statement, if_pos h, Step.run_consume, Step.run_done]

theorem kind_ne_dedent {t : Token} (h : startsStatement t = true) : t.kind ≠ .dedent := by
  intro hkind
  have hends := endsStatement_of_startsStatement h
  rw [hkind] at hends
  cases hends

/-- No keyword of a compound statement starts a simple one. -/
theorem statement_of_startsSimple {t : Token} (h : startsSimple t = true) (ts : List Token) :
    statement ctx (t :: ts) =
      (simple ctx (t :: ts)).andThen fun stmt vs _ => (ending vs).map fun _ => some stmt := by
  have hkind : t.kind ≠ .newline := by
    intro hkind
    have hends := endsStatement_of_startsStatement (t := t) (Bool.or_eq_true_iff.2 (.inl h))
    rw [hkind] at hends
    cases hends
  rw [statement]
  simp only [hkind, is_eq_false_of_class h .keyword "def" rfl,
    is_eq_false_of_class h .keyword "class" rfl, is_eq_false_of_class h .keyword "if" rfl,
    is_eq_false_of_class h .keyword "for" rfl, is_eq_false_of_class h .keyword "while" rfl]
  rfl

/-- A simple statement is read together with what ends it. -/
theorem Simple.run_statement {s : Stmt} {ts us rest : List Token} (h : Simple ctx.fstring s ts)
    (hends : EndsSimple us) (hreturn : s = .returnValue none → EndsLine us)
    (hending : (ending us).run = (.ok (), rest)) :
    (statement ctx (ts ++ us)).run = (.ok (some s), rest) := by
  have hrun := h.run hends hreturn
  -- Reading a statement starts with a look at the first token.
  obtain ⟨t, vs, rfl, hstart⟩ := h.exists_cons
  rw [List.cons_append, statement_of_startsSimple hstart]
  obtain ⟨_, hrun'⟩ := Step.run_andThen_of_ok hrun _
  exact hrun'.trans (Step.run_map_of_ok hending _)

/-- What reading gives for a piece of a program. -/
def Piece.Reads (ctx : Context) : Piece → List Token → List Token → Prop
  | .statement s, ts, rest => (Grammar.statement ctx ts).run = (.ok (some s), rest)
  | .block ss, ts, rest => (Grammar.block ctx ts).run = (.ok ss, rest)
  | .body ss, ts, rest => (Grammar.blockBody ctx ts).run = (.ok ss, rest)
  | .alternate a, ts, rest => (Grammar.alternate ctx ts).run = (.ok a, rest)
  | .orelse ss, ts, rest => (Grammar.loopElse ctx ts).run = (.ok ss, rest)

/-- A block starts with a colon, which ends the expression before it. -/
theorem Takes.ends_block {r : Reader} {ss : List Stmt} {ts rest : List Token}
    (h : Takes r (.block ss) ts rest) : Ends 0 ts := by
  cases h with
  | block hcolon => exact ends_delimiter hcolon (by decide) (by decide) 0 _

theorem run_conditional {condition : Expr} {body : List Stmt} {more : Alternate}
    {ts us vs rest : List Token} (hcondition : Forms ctx.fstring (.expression 0 condition) ts)
    (hends : Ends 0 us) (hbody : (block ctx us).run = (.ok body, vs))
    (hmore : (alternate ctx vs).run = (.ok more, rest)) :
    (conditional ctx (ts ++ us)).run = (.ok (.ifElse condition body more), rest) := by
  rw [conditional]
  obtain ⟨_, hrun⟩ := Step.run_andThen_of_ok (hcondition.run_expression hends) _
  obtain ⟨_, hrun'⟩ := Step.run_andThen_of_ok hbody _
  exact (hrun.trans hrun').trans (Step.run_map_of_ok hmore _)

theorem run_whileLoop {condition : Expr} {body orelse : List Stmt} {ts us vs rest : List Token}
    (hcondition : Forms ctx.fstring (.expression 0 condition) ts) (hends : Ends 0 us)
    (hbody : (block ctx us).run = (.ok body, vs))
    (horelse : (loopElse ctx vs).run = (.ok orelse, rest)) :
    (whileLoop ctx (ts ++ us)).run = (.ok (.whileLoop condition body orelse), rest) := by
  rw [whileLoop]
  obtain ⟨_, hrun⟩ := Step.run_andThen_of_ok (hcondition.run_expression hends) _
  obtain ⟨_, hrun'⟩ := Step.run_andThen_of_ok hbody _
  exact (hrun.trans hrun').trans (Step.run_map_of_ok horelse _)

theorem run_forLoop {target iter : Expr} {body orelse : List Stmt} {isIn : Token}
    {ts us vs ws rest : List Token} (htarget : Forms ctx.fstring (.primary target) ts)
    (hin : isIn.is .keyword "in" = true) (hiter : Forms ctx.fstring (.expression 0 iter) us)
    (hends : Ends 0 vs) (hbody : (block ctx vs).run = (.ok body, ws))
    (horelse : (loopElse ctx ws).run = (.ok orelse, rest)) :
    (forLoop ctx (ts ++ isIn :: (us ++ vs))).run =
      (.ok (.forLoop target iter body orelse), rest) := by
  have hprimary : EndsPrimary (isIn :: (us ++ vs)) := by
    rintro _ ⟨⟩
    simp [startsTrailer, Token.is, (Token.is_iff.1 hin).1]
  rw [forLoop]
  obtain ⟨_, hrun₁⟩ := Step.run_andThen_of_ok (htarget.run_primary hprimary) _
  obtain ⟨_, hrun₂⟩ := Step.run_andThen_of_ok (run_expect_text ctx.endLine hin _) _
  obtain ⟨_, hrun₃⟩ := Step.run_andThen_of_ok (hiter.run_expression hends) _
  obtain ⟨_, hrun₄⟩ := Step.run_andThen_of_ok hbody _
  exact hrun₁.trans (hrun₂.trans (hrun₃.trans (hrun₄.trans (Step.run_map_of_ok horelse _))))

theorem run_functionDef {name opening : Token} {names : List String} {body : List Stmt}
    {ts us rest : List Token} (hname : name.kind = .identifier)
    (hopening : opening.is .delimiter "(" = true) (hnames : Parameters names ts)
    (hbody : (block ctx us).run = (.ok body, rest)) :
    (functionDef ctx (name :: opening :: (ts ++ us))).run =
      (.ok (.functionDef name.text names body), rest) := by
  rw [functionDef]
  obtain ⟨_, hrun₁⟩ := Step.run_andThen_of_ok (run_expect_kind ctx.endLine hname _) _
  obtain ⟨_, hrun₂⟩ := Step.run_andThen_of_ok (run_expect_text ctx.endLine hopening _) _
  obtain ⟨_, hrun₃⟩ := Step.run_andThen_of_ok (hnames.run us) _
  exact hrun₁.trans (hrun₂.trans (hrun₃.trans (Step.run_map_of_ok hbody _)))

theorem run_classDef {name : Token} {body : List Stmt} {ts rest : List Token}
    (hname : name.kind = .identifier) (hbody : (block ctx ts).run = (.ok body, rest)) :
    (classDef ctx (name :: ts)).run = (.ok (.classDef name.text body), rest) := by
  rw [classDef]
  obtain ⟨_, hrun⟩ := Step.run_andThen_of_ok (run_expect_kind ctx.endLine hname _) _
  exact hrun.trans (Step.run_map_of_ok hbody _)

/-- A block is a colon, a line end and an `indent` before its body. -/
theorem run_block {colon newline indent : Token} {ss : List Stmt} {ts rest : List Token}
    (hcolon : colon.is .delimiter ":" = true) (hnewline : newline.kind = .newline)
    (hindent : indent.kind = .indent) (hbody : (blockBody ctx ts).run = (.ok ss, rest)) :
    (block ctx (colon :: newline :: indent :: ts)).run = (.ok ss, rest) := by
  rw [block]
  obtain ⟨_, hrun₁⟩ := Step.run_andThen_of_ok (run_expect_text ctx.endLine hcolon _) _
  obtain ⟨_, hrun₂⟩ := Step.run_andThen_of_ok (run_expect_kind ctx.endLine hnewline _) _
  obtain ⟨_, hrun₃⟩ := Step.run_andThen_of_ok (run_expect_kind ctx.endLine hindent _) _
  exact hrun₁.trans (hrun₂.trans (hrun₃.trans hbody))

/-- A piece that is taken from tokens is read from them. -/
theorem Takes.reads {piece : Piece} {ts rest : List Token}
    (h : Takes ctx.fstring piece ts rest) : piece.Reads ctx ts rest := by
  induction h with
  | line hsimple hends =>
      exact hsimple.run_statement hends.endsSimple (fun _ => hends) (run_ending_line hends)
  | semicolon hsimple hvalue ht =>
      exact hsimple.run_statement (endsSimple_semicolon ht _) (fun hs => absurd hs hvalue)
        (run_ending_semicolon ht _)
  | functionDef ht hname hopening hnames _ ih =>
      obtain ⟨hkind, htext⟩ := Token.is_iff.1 ht
      rw [Piece.Reads, Grammar.statement]
      simp only [Token.is, hkind, htext]
      exact Step.run_map_of_ok (run_functionDef hname hopening hnames ih) _
  | classDef ht hname _ ih =>
      obtain ⟨hkind, htext⟩ := Token.is_iff.1 ht
      rw [Piece.Reads, Grammar.statement]
      simp only [Token.is, hkind, htext]
      exact Step.run_map_of_ok (run_classDef hname ih) _
  | conditional ht hcondition hbody _ ihbody ihmore =>
      obtain ⟨hkind, htext⟩ := Token.is_iff.1 ht
      rw [Piece.Reads, Grammar.statement]
      simp only [Token.is, hkind, htext]
      exact Step.run_map_of_ok (run_conditional hcondition hbody.ends_block ihbody ihmore) _
  | whileLoop ht hcondition hbody _ ihbody ihorelse =>
      obtain ⟨hkind, htext⟩ := Token.is_iff.1 ht
      rw [Piece.Reads, Grammar.statement]
      simp only [Token.is, hkind, htext]
      exact Step.run_map_of_ok (run_whileLoop hcondition hbody.ends_block ihbody ihorelse) _
  | forLoop ht htarget hin hiter hbody _ ihbody ihorelse =>
      obtain ⟨hkind, htext⟩ := Token.is_iff.1 ht
      rw [Piece.Reads, Grammar.statement]
      simp only [Token.is, hkind, htext]
      exact Step.run_map_of_ok
        (run_forLoop htarget hin hiter hbody.ends_block ihbody ihorelse) _
  | elseIf ht hcondition hbody _ ihbody ihmore =>
      rw [Piece.Reads, Grammar.alternate, if_pos ht, Step.run_loosen, Step.run_consume]
      obtain ⟨_, hrun⟩ := Step.run_andThen_of_ok (hcondition.run_expression hbody.ends_block) _
      obtain ⟨_, hrun'⟩ := Step.run_andThen_of_ok ihbody _
      exact (hrun.trans hrun').trans (Step.run_map_of_ok ihmore _)
  | otherwise ht _ ih =>
      have htext := (Token.is_iff.1 ht).2
      rw [Piece.Reads, Grammar.alternate, if_neg (by simp [Token.is, htext]), if_pos ht,
        Step.run_loosen, Step.run_consume]
      exact Step.run_map_of_ok ih _
  | @noAlternate rest hno =>
      cases rest with
      | nil => rw [Piece.Reads, Grammar.alternate, Step.run_done]
      | cons t us =>
          obtain ⟨helif, helse⟩ := hno t rfl
          rw [Piece.Reads, Grammar.alternate, if_neg (by simp [helif]), if_neg (by simp [helse]),
            Step.run_done]
  | loopElse ht _ ih =>
      rw [Piece.Reads, Grammar.loopElse, if_pos ht, Step.run_loosen, Step.run_consume]
      exact ih
  | @noLoopElse rest hno =>
      cases rest with
      | nil => rw [Piece.Reads, Grammar.loopElse, Step.run_done]
      | cons t us =>
          rw [Piece.Reads, Grammar.loopElse, if_neg (by simp [hno t rfl]), Step.run_done]
  | block hcolon hnewline hindent _ ih => exact run_block hcolon hnewline hindent ih
  | bodyEnd => rw [Piece.Reads, blockBody, Step.run_done]
  | dedent ht =>
      rw [Piece.Reads, blockBody, if_pos ht, Step.run_loosen, Step.run_consume, Step.run_done]
  | bodyNewline ht _ ih =>
      rw [Piece.Reads, blockBody, if_neg (by simp [ht]), Step.run_loosen]
      obtain ⟨_, hrun⟩ := Step.run_andThen_of_ok (run_statement_newline ht _) _
      exact hrun.trans (Step.run_map_of_ok ih _)
  | bodyStatement hs _ ihs ih =>
      -- A statement does not start with the end of the block.
      obtain ⟨t, us, rfl, hstart⟩ := hs.exists_cons
      rw [Piece.Reads, blockBody, if_neg (kind_ne_dedent hstart), Step.run_loosen]
      obtain ⟨_, hrun⟩ := Step.run_andThen_of_ok ihs _
      exact hrun.trans (Step.run_map_of_ok ih _)

/-- **What forms a program is read as it.** -/
theorem FormsProgram.run {ss : List Stmt} {ts : List Token}
    (h : FormsProgram ctx.fstring ss ts) : (program ctx ts).run = (.ok ss, []) := by
  induction h with
  | done => rw [program, Step.run_done]
  | dedent ht _ ih => rw [program, if_pos ht, Step.run_loosen, Step.run_consume, ih]
  | newline ht _ ih =>
      rw [program, if_neg (by simp [ht]), Step.run_loosen]
      obtain ⟨_, hrun⟩ := Step.run_andThen_of_ok (run_statement_newline ht _) _
      exact hrun.trans (Step.run_map_of_ok ih _)
  | statement hs _ ih =>
      obtain ⟨t, us, rfl, hstart⟩ := hs.exists_cons
      rw [program, if_neg (kind_ne_dedent hstart), Step.run_loosen]
      obtain ⟨_, hrun⟩ := Step.run_andThen_of_ok hs.reads _
      exact hrun.trans (Step.run_map_of_ok ih _)

end

end Offside.Grammar

/-- A success is known by its value. -/
theorem Offside.eq_ok_of_toOption {α ε : Type} {result : Except ε α} {a : α}
    (h : result.toOption = some a) : result = .ok a := by
  cases result with
  | error failure => cases h
  | ok b => exact congrArg Except.ok (Option.some.inj h)

namespace Offside.Program

/-- The reader of the f-strings of a program. -/
def fstringReader : Grammar.Reader := fun text line => FString.read text.toList line

/-- Tokens are read as a program exactly if they form it. -/
theorem ofTokens_eq_ok_iff {ts : List Token} {p : Program} :
    ofTokens ts = .ok p ↔ Grammar.FormsProgram fstringReader p.statements ts := by
  constructor
  · intro h
    have hrun : ((Grammar.program (Grammar.Cursor.ofTokens ts).context ts).map Program.mk).run =
        (.ok p, _) := Prod.ext h rfl
    obtain ⟨ss, hprogram, rfl⟩ := Grammar.Step.map_eq_ok hrun
    exact (Grammar.program_sound hprogram).1
  · intro h
    have hrun : (Grammar.program (Grammar.Cursor.ofTokens ts).context ts).run = _ := h.run
    exact congrArg Prod.fst (Grammar.Step.run_map_of_ok hrun Program.mk)

/-- Successful readings of closed texts can be evaluated. -/
theorem parse_eq_ok {source : String} {p : Program}
    (h : (parse source).toOption = some p) : parse source = .ok p :=
  eq_ok_of_toOption h

end Offside.Program
