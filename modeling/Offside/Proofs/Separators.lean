import Offside.Ast.Equality
import Offside.Proofs.Derivation.Statement

/-!
# Offside.Proofs.Separators

Statements on one line. Tokens that are read by themselves as one statement are read
as that statement **before a line end, whatever follows**, and before a semicolon
unless they are a `return` without a value: there the reader asks for a value, and
the semicolon is none. Main statement: `Program.ofTokens_joined`.
-/

namespace Offside

open Grammar

/-- A statement, and tokens that write it. -/
structure Segment where
  tokens : List Token
  statement : Stmt

/-- The tokens stand on one line, have no semicolon among them, and are read by
themselves as the statement. -/
structure Segment.IsAlone (s : Segment) : Prop where
  kind_ne : ∀ t ∈ s.tokens, t.kind ≠ .newline ∧ t.kind ≠ .indent ∧ t.kind ≠ .dedent
  not_semicolon : ∀ t ∈ s.tokens, t.is .delimiter ";" = false
  reads : Program.ofTokens s.tokens = .ok ⟨[s.statement]⟩

/-- The tokens of segments, with separators between them: after the segment at place
`i` comes the separator `i`. -/
def joined (separator : Nat → Token) : List Segment → List Token
  | [] => []
  | [s] => s.tokens
  | s :: s' :: rest => s.tokens ++ separator 0 :: joined (fun i => separator (i + 1)) (s' :: rest)

/-! ### One segment -/

namespace Grammar

variable {r : Reader}

/-- Line ends and the ends of blocks by themselves form no statement. -/
theorem FormsProgram.kind_of_nil {ts : List Token} (h : FormsProgram r [] ts) :
    ∀ t ∈ ts.head?, t.kind = .newline ∨ t.kind = .dedent := by
  cases h with
  | done => simp
  | dedent ht => rintro _ ⟨⟩; exact .inr ht
  | newline ht => rintro _ ⟨⟩; exact .inl ht

theorem Takes.exists_newline {ss : List Stmt} {ts rest : List Token}
    (h : Takes r (.block ss) ts rest) : ∃ t ∈ ts, t.kind = .newline := by
  cases h with
  | block _ hnewline => exact ⟨_, by simp, hnewline⟩

/-- A statement on one line is simple, and all of its tokens belong to it. -/
theorem Takes.simple_of_line {s : Stmt} {ts rest : List Token}
    (h : Takes r (.statement s) ts rest) (hline : ∀ t ∈ ts, t.kind ≠ .newline)
    (hsemicolon : ∀ t ∈ ts, t.is .delimiter ";" = false) :
    ∃ used, ts = used ++ rest ∧ Simple r s used := by
  have hblock {body : List Stmt} {us rest : List Token} (hus : ∀ t ∈ us, t ∈ ts)
      (h : Takes r (.block body) us rest) : False := by
    obtain ⟨t, ht, hkind⟩ := h.exists_newline
    exact hline t (hus t ht) hkind
  cases h with
  | line hsimple => exact ⟨_, rfl, hsimple⟩
  | semicolon _ _ ht =>
      rw [hsemicolon _ (by simp)] at ht
      cases ht
  | functionDef _ _ _ _ hbody | classDef _ _ hbody | conditional _ _ hbody
  | whileLoop _ _ hbody | forLoop _ _ _ _ hbody =>
      exact (hblock (fun t ht => by simp [ht]) hbody).elim

/-- Tokens on one line that form one statement form it whole. -/
theorem FormsProgram.simple_of_line {s : Stmt} {ts : List Token} (h : FormsProgram r [s] ts)
    (hlayout : ∀ t ∈ ts, t.kind ≠ .newline ∧ t.kind ≠ .indent ∧ t.kind ≠ .dedent)
    (hsemicolon : ∀ t ∈ ts, t.is .delimiter ";" = false) : Simple r s ts := by
  cases h with
  | dedent ht => exact absurd ht (hlayout _ List.mem_cons_self).2.2
  | newline ht => exact absurd ht (hlayout _ List.mem_cons_self).1
  | @statement _ _ _ rest hs hrest =>
      obtain ⟨used, rfl, hsimple⟩ := hs.simple_of_line (fun t ht => (hlayout t ht).1) hsemicolon
      cases rest with
      | nil => rwa [List.append_nil]
      | cons t rest =>
          obtain ⟨hnewline, -, hdedent⟩ := hlayout t (by simp)
          rcases hrest.kind_of_nil t rfl with hkind | hkind
          · exact absurd hkind hnewline
          · exact absurd hkind hdedent

/-! ### Segments in a row -/

variable {ctx : Context}

/-- A program is read statement by statement. -/
theorem result_program_of_statement {s : Stmt} {t : Token} {ts rest : List Token}
    (hdedent : t.kind ≠ .dedent) (h : (statement ctx (t :: ts)).run = (.ok (some s), rest)) :
    (program ctx (t :: ts)).result = (program ctx rest).result.map (s :: ·) := by
  rw [program, if_neg hdedent]
  obtain ⟨_, hrun⟩ := Step.run_andThen_of_ok h fun stmt us _ =>
    (program ctx us).map (stmt.toList ++ ·)
  exact congrArg Prod.fst hrun

/-- A failure in the first statement is that of the program. -/
theorem result_program_of_error {e : Failure} {t : Token} {ts rest : List Token}
    (hdedent : t.kind ≠ .dedent) (h : (statement ctx (t :: ts)).run = (.error e, rest)) :
    (program ctx (t :: ts)).result = .error e := by
  rw [program, if_neg hdedent]
  exact congrArg Prod.fst (Step.run_andThen_of_error h fun stmt us _ =>
    (program ctx us).map (stmt.toList ++ ·))

/-- No expression starts with a semicolon. -/
theorem run_expression_of_semicolon {t : Token} (ht : t.is .delimiter ";" = true) (m : Nat)
    (ts : List Token) : (expression ctx m (t :: ts)).run = (.error (unexpected t), t :: ts) := by
  obtain ⟨hkind, htext⟩ := Token.is_iff.1 ht
  have hop : unaryOp? t = none := by simp [unaryOp?, Token.is, hkind]
  have hatom : (atom ctx (t :: ts)).run = (.error (unexpected t), t :: ts) := by
    rw [atom]
    simp only [hkind, htext]
    rfl
  have hprimary : (primary ctx (t :: ts)).run = (.error (unexpected t), t :: ts) := by
    rw [primary]
    exact Step.run_andThen_of_error hatom _
  have hunary : (unary ctx (t :: ts)).run = (.error (unexpected t), t :: ts) := by
    rw [unary, hop]
    exact hprimary
  rw [expression]
  exact Step.run_andThen_of_error hunary _

/-- After `return`, a semicolon is taken for the start of a value. -/
theorem run_statement_of_bareReturn {t u : Token} (ht : t.is .keyword "return" = true)
    (hu : u.is .delimiter ";" = true) (rest : List Token) :
    (statement ctx (t :: u :: rest)).run = (.error (unexpected u), u :: rest) := by
  obtain ⟨hkind, htext⟩ := Token.is_iff.1 ht
  have hstart : startsSimple t = true := by simp [startsSimple, hkind, htext]
  have hends : endsStatement (peek ctx.endLine (u :: rest)).kind = false := by
    rw [peek_cons, (Token.is_iff.1 hu).1]
    rfl
  have hvalue : (returned ctx (u :: rest)).run = (.error (unexpected u), u :: rest) := by
    rw [returned, hends, if_neg Bool.false_ne_true, Step.run_loosen, Step.run_map,
      run_expression_of_semicolon hu]
    rfl
  have hsimple : (simple ctx (t :: u :: rest)).run = (.error (unexpected u), u :: rest) := by
    rw [simple, if_pos ht, Step.run_consume, hvalue]
  rw [statement_of_startsSimple hstart]
  exact Step.run_andThen_of_error hsimple _

/-- A `return` without a value is its keyword. -/
theorem Simple.eq_of_bareReturn {ts : List Token} (h : Simple r (.returnValue none) ts) :
    ∃ t, ts = [t] ∧ t.is .keyword "return" = true := by
  generalize hs : Stmt.returnValue none = s at h
  cases h with
  | bareReturn ht => exact ⟨_, rfl, ht⟩
  | @assignment _ op => cases op <;> cases hs
  | _ => cases hs

end Grammar

theorem Segment.IsAlone.simple {s : Segment} (h : s.IsAlone) :
    Simple Program.fstringReader s.statement s.tokens :=
  (Program.ofTokens_eq_ok_iff.1 h.reads).simple_of_line h.kind_ne h.not_semicolon

/-- Segments with line ends between them form the program of their statements. -/
theorem formsProgram_joined {newline : Nat → Token} (hnewline : ∀ i, (newline i).kind = .newline) :
    (segments : List Segment) → (∀ s ∈ segments, s.IsAlone) →
      FormsProgram Program.fstringReader (segments.map Segment.statement) (joined newline segments)
  | [], _ => .done
  | [s], h => (Program.ofTokens_eq_ok_iff.1 (h s List.mem_cons_self).reads)
  | s :: s' :: rest, h => by
      obtain ⟨hs, hrest⟩ := List.forall_mem_cons.1 h
      have hends : EndsLine (newline 0 :: joined (fun i => newline (i + 1)) (s' :: rest)) := by
        rintro _ ⟨⟩
        simp [endsStatement, hnewline]
      exact .statement (.line hs.simple hends)
        (.newline (hnewline 0) (formsProgram_joined (fun i => hnewline (i + 1)) (s' :: rest) hrest))

/-- The place of the first `return` without a value that has a statement after it. -/
def strandedReturn? (segments : List Segment) : Option Nat :=
  (segments.map Segment.statement).dropLast.findIdx? (· = .returnValue none)

theorem strandedReturn?_cons (s s' : Segment) (rest : List Segment) :
    strandedReturn? (s :: s' :: rest) =
      if s.statement = .returnValue none then some 0
      else (strandedReturn? (s' :: rest)).map (· + 1) := by
  simp [strandedReturn?, List.findIdx?_cons]

/-- Segments with semicolons between them are read up to the first `return` without a
value that is not the last segment. -/
theorem result_program_joined (ctx : Context) (hctx : ctx.fstring = Program.fstringReader)
    {semicolon : Nat → Token} (hsemicolon : ∀ i, (semicolon i).is .delimiter ";" = true) :
    (segments : List Segment) → (∀ s ∈ segments, s.IsAlone) →
      (program ctx (joined semicolon segments)).result =
        (strandedReturn? segments).elim (.ok (segments.map Segment.statement))
          fun i => .error (unexpected (semicolon i))
  | [], _ => by rw [joined, program]; rfl
  | [s], h => by
      have hforms := Program.ofTokens_eq_ok_iff.1 (h s List.mem_cons_self).reads
      rw [← hctx] at hforms
      exact congrArg Prod.fst hforms.run
  | s :: s' :: rest, h => by
      obtain ⟨hs, hrest⟩ := List.forall_mem_cons.1 h
      have hlater := result_program_joined ctx hctx (fun i => hsemicolon (i + 1)) (s' :: rest) hrest
      have hsimple := hs.simple
      rw [← hctx] at hsimple
      rw [joined, strandedReturn?_cons]
      by_cases hreturn : s.statement = .returnValue none
      · -- The semicolon after the keyword is no value.
        rw [hreturn] at hsimple
        obtain ⟨t, htokens, ht⟩ := hsimple.eq_of_bareReturn
        rw [htokens, if_pos hreturn]
        exact result_program_of_error (by simp [(Token.is_iff.1 ht).1])
          (run_statement_of_bareReturn ht (hsemicolon 0) _)
      · have hrun := hsimple.run_statement (endsSimple_semicolon (hsemicolon 0) _)
          (fun h => absurd h hreturn)
          (run_ending_semicolon (hsemicolon 0) (joined (fun i => semicolon (i + 1)) (s' :: rest)))
        obtain ⟨t, us, htokens, hstart⟩ := hsimple.exists_cons
        rw [htokens, List.cons_append] at hrun ⊢
        have hdedent : t.kind ≠ .dedent := kind_ne_dedent (Bool.or_eq_true_iff.2 (.inl hstart))
        rw [result_program_of_statement hdedent hrun, hlater, if_neg hreturn]
        cases strandedReturn? (s' :: rest) <;> rfl

namespace Program

/-- **Semicolons and line ends.** Tokens that are each read as one statement are read
as these statements in a row if line ends stand between them. With semicolons in place
of the line ends they are read in the same way exactly if none of the statements but
the last is a `return` without a value; otherwise reading fails at the semicolon after
the first of these. -/
theorem ofTokens_joined {segments : List Segment} (h : ∀ s ∈ segments, s.IsAlone)
    (newline semicolon : Nat → Token) (hnewline : ∀ i, (newline i).kind = .newline)
    (hsemicolon : ∀ i, (semicolon i).is .delimiter ";" = true) :
    ofTokens (joined newline segments) = .ok ⟨segments.map Segment.statement⟩ ∧
      (ofTokens (joined semicolon segments) = .ok ⟨segments.map Segment.statement⟩ ↔
        ∀ s ∈ (segments.map Segment.statement).dropLast, s ≠ .returnValue none) ∧
      ∀ i, strandedReturn? segments = some i →
        ofTokens (joined semicolon segments) = .error (unexpected (semicolon i)) := by
  have hresult : ofTokens (joined semicolon segments) =
      (strandedReturn? segments).elim (.ok ⟨segments.map Segment.statement⟩)
        fun i => .error (unexpected (semicolon i)) := by
    have hprogram := result_program_joined
      (Cursor.ofTokens (joined semicolon segments)).context rfl hsemicolon segments h
    refine (congrArg (Except.map Program.mk) hprogram).trans ?_
    cases strandedReturn? segments <;> rfl
  refine ⟨ofTokens_eq_ok_iff.2 (formsProgram_joined hnewline segments h), ?_, fun i hi => ?_⟩
  · have hnone : strandedReturn? segments = none ↔
        ∀ s ∈ (segments.map Segment.statement).dropLast, s ≠ .returnValue none := by
      simp [strandedReturn?, List.findIdx?_eq_none_iff]
    rw [hresult, ← hnone]
    cases strandedReturn? segments <;> simp
  · rw [hresult, hi]
    rfl

/-- Whether segments stand alone can be evaluated. -/
theorem isAlone_of_eval {segments : List Segment}
    (h : ∀ s ∈ segments,
      (∀ t ∈ s.tokens, t.kind ≠ .newline ∧ t.kind ≠ .indent ∧ t.kind ≠ .dedent) ∧
        (∀ t ∈ s.tokens, t.is .delimiter ";" = false) ∧
        (ofTokens s.tokens).toOption = some ⟨[s.statement]⟩) :
    ∀ s ∈ segments, s.IsAlone := by
  intro s hs
  obtain ⟨hlayout, hsemicolon, hreads⟩ := h s hs
  exact ⟨hlayout, hsemicolon, eq_ok_of_toOption hreads⟩

/-- Lines of several kinds, the last of them a `return` without a value. -/
def lineSegments : List Segment :=
  [⟨Token.ofProgram "x += f(y)".toList,
      .augAssign (.ident "x") .add (.call (.ident "f") [.ident "y"])⟩,
    ⟨Token.ofProgram "import a.b".toList, .importModule ["a", "b"]⟩,
    ⟨Token.ofProgram "break".toList, .breakLoop⟩,
    ⟨Token.ofProgram "return x".toList, .returnValue (some (.ident "x"))⟩,
    ⟨Token.ofProgram "return".toList, .returnValue none⟩]

/-- At the end of a line, a `return` needs no value. -/
theorem ofTokens_joined_lineSegments :
    (∀ s ∈ lineSegments, s.IsAlone) ∧
      ofTokens (joined (fun _ => ⟨.delimiter, ";", 1⟩) lineSegments) =
        .ok ⟨lineSegments.map Segment.statement⟩ := by
  have halone : ∀ s ∈ lineSegments, s.IsAlone := isAlone_of_eval (by decide +kernel)
  have hjoined := ofTokens_joined halone (fun i => Token.newline (i + 1))
    (fun _ => ⟨.delimiter, ";", 1⟩) (fun _ => rfl) (fun _ => rfl)
  exact ⟨halone, hjoined.2.1.2 (by decide)⟩

/-- A `return` without a value is refused before a semicolon, though it is read by
itself, and before a line end too. -/
theorem bareReturn_before_semicolon_refused :
    (∀ s ∈ [(⟨[⟨.keyword, "return", 1⟩], .returnValue none⟩ : Segment),
        ⟨[⟨.keyword, "pass", 1⟩], .pass⟩], s.IsAlone) ∧
      ofTokens [⟨.keyword, "return", 1⟩, Token.newline 1, ⟨.keyword, "pass", 1⟩] =
        .ok ⟨[.returnValue none, .pass]⟩ ∧
      ¬ ofTokens [⟨.keyword, "return", 1⟩, ⟨.delimiter, ";", 1⟩, ⟨.keyword, "pass", 1⟩] =
        .ok ⟨[.returnValue none, .pass]⟩ := by
  refine ⟨isAlone_of_eval (by decide +kernel), eq_ok_of_toOption (by decide +kernel), ?_⟩
  intro h
  have hnone : (ofTokens [⟨.keyword, "return", 1⟩, ⟨.delimiter, ";", 1⟩,
      ⟨.keyword, "pass", 1⟩]).toOption.isNone = true := by decide +kernel
  rw [h] at hnone
  cases hnone

end Program

end Offside
