import Offside.Grammar.Nesting
import Offside.Proofs.Derivation.Statement

/-!
# Offside.Proofs.Derivation.Failure

The ways in which reading **fails**. `Blames ctx ts e` lists all failures `e` that
reading the tokens `ts` can end in: each of them is put on one of these tokens, or
on the end behind them. Main statements: `program_isBlamed`, for programs, and
`FString.fails_of_read`, for the text of an f-string.

What a step can fail with does not depend on how it goes on after a success, so
the operations on steps carry `Step.IsBlamed` through the grammar, and each
function of the grammar has one case for each of its ends.
-/

namespace Offside

namespace Grammar

/-! ### What failures are put on -/

/-- The next token is one of `ts`, or the end behind them. -/
def IsNext (ctx : Context) (ts : List Token) (t : Token) : Prop :=
  t ∈ ts ∨ t = Token.eof ctx.endLine

/-- The texts that the grammar asks for. -/
def expectedTexts : List String := [")", "]", "(", ":", "in"]

/-- The failures that reading the tokens can end in. -/
inductive Blames (ctx : Context) (ts : List Token) : Failure → Prop where
  /-- A token that is not the expected one. -/
  | expected {t : Token} (kind : TokenKind) {text : Option String} :
      (∀ s ∈ text, s ∈ expectedTexts) → IsNext ctx ts t →
      Blames ctx ts (.parse t.line (.expected kind text t))
  /-- A token that starts no expression. -/
  | unexpected {t : Token} : IsNext ctx ts t → Blames ctx ts (unexpected t)
  /-- A token after a simple statement, on the same line. -/
  | unfinished {t : Token} : t ∈ ts → Blames ctx ts (.parse t.line (.unfinished t))
  /-- The first token of a statement that assigns to what is no target. -/
  | invalidTarget {t : Token} : t ∈ ts → Blames ctx ts (.parse t.line .invalidTarget)
  | invalidNumber {t : Token} :
      t ∈ ts → t.kind = .number → Numeral.read? t.text = none →
      Blames ctx ts (.parse t.line (.invalidNumber t.text))
  /-- An f-string, for a reason of its own. -/
  | fstring {t : Token} {e : Failure} :
      t ∈ ts → t.kind = .fstring → ctx.fstring t.text t.line = .error e → Blames ctx ts e

/-- What comes next in a later part of the tokens comes next in all of them. -/
theorem IsNext.of_suffix {ctx : Context} {ts us : List Token} {t : Token} (h : IsNext ctx us t)
    (hs : us <:+ ts) : IsNext ctx ts t :=
  h.imp_left fun ht => hs.subset ht

theorem isNext_cons (ctx : Context) (t : Token) (ts : List Token) : IsNext ctx (t :: ts) t :=
  .inl List.mem_cons_self

/-- The end of the source comes next after any tokens. -/
theorem isNext_eof (ctx : Context) (ts : List Token) : IsNext ctx ts (Token.eof ctx.endLine) :=
  .inr rfl

/-- A failure later on is put on a token later on. -/
theorem Blames.of_suffix {ctx : Context} {ts us : List Token} {e : Failure} (h : Blames ctx us e)
    (hs : us <:+ ts) : Blames ctx ts e := by
  cases h with
  | expected kind htext ht => exact .expected kind htext (ht.of_suffix hs)
  | unexpected ht => exact .unexpected (ht.of_suffix hs)
  | unfinished ht => exact .unfinished (hs.subset ht)
  | invalidTarget ht => exact .invalidTarget (hs.subset ht)
  | invalidNumber ht hkind hvalue => exact .invalidNumber (hs.subset ht) hkind hvalue
  | fstring ht hkind hread => exact .fstring (hs.subset ht) hkind hread

/-! ### Steps

Each way of making steps passes failures on unchanged, so all that has to be looked at
is where they are made.
-/

namespace Step

variable {ctx : Context} {j k : Nat} {t : Token} {ts : List Token} {α β : Type}

/-- If a step fails, then with one of the failures of its tokens. -/
def IsBlamed (ctx : Context) (s : Step k ts α) : Prop := ∀ e, s.result = .error e → Blames ctx ts e

theorem isBlamed_done (ctx : Context) (a : α) : (done a : Step 0 ts α).IsBlamed ctx := by
  intro e h
  cases h

/-- A failure that names a token or an f-string is a proper one. -/
theorem isBlamed_fail {e : Failure} (he : Blames ctx ts e) :
    (fail e : Step k ts α).IsBlamed ctx := by
  intro e' h
  obtain rfl := Except.error.inj h
  exact he

theorem IsBlamed.consume {s : Step k ts α} (h : s.IsBlamed ctx) : (consume t s).IsBlamed ctx :=
  fun e he => (h e he).of_suffix (List.suffix_cons t ts)

theorem IsBlamed.loosen {s : Step k ts α} (h : s.IsBlamed ctx) : s.loosen.IsBlamed ctx := h

theorem IsBlamed.map {s : Step k ts α} (h : s.IsBlamed ctx) (f : α → β) :
    (s.map f).IsBlamed ctx := by
  intro e he
  have hmap : s.result.map f = .error e := he
  cases hresult : s.result with
  | ok a =>
      rw [hresult] at hmap
      cases hmap
  | error failure =>
      rw [hresult] at hmap
      obtain rfl := Except.error.inj hmap
      exact h failure hresult

/-- A row of two steps fails in the first one or in the second one. -/
theorem andThen_eq_error {s : Step k ts α}
    {f : α → (us : List Token) → us.length + k ≤ ts.length → Step j us β} {e : Failure}
    (h : (s.andThen f).result = .error e) :
    s.result = .error e ∨ ∃ a us hle, us <:+ ts ∧ (f a us hle).result = .error e := by
  obtain ⟨result, rest, hsuffix, hprogress⟩ := s
  cases result with
  | ok a => exact .inr ⟨a, rest, hprogress a rfl, hsuffix, h⟩
  | error failure =>
      obtain rfl := Except.error.inj h
      exact .inl rfl

/-- **Of two steps, the one that fails** names a token of what it was given. -/
theorem IsBlamed.andThen {s : Step k ts α}
    {f : α → (us : List Token) → us.length + k ≤ ts.length → Step j us β} (h : s.IsBlamed ctx)
    (hf : ∀ a us hle, (f a us hle).IsBlamed ctx) : (s.andThen f).IsBlamed ctx := by
  intro e he
  rcases andThen_eq_error he with hfirst | ⟨a, us, hle, hs, hsecond⟩
  · exact h e hfirst
  · exact (hf a us hle e hsecond).of_suffix hs

end Step

open Step (isBlamed_done isBlamed_fail)

/-- A token that is expected and not there is blamed on the one in its place. -/
theorem expect_isBlamed (ctx : Context) (kind : TokenKind) {text : Option String}
    (htext : ∀ s ∈ text, s ∈ expectedTexts) (ts : List Token) :
    (expect ctx.endLine kind text ts).IsBlamed ctx := by
  cases ts with
  | nil => exact isBlamed_fail (.expected kind htext (isNext_eof ctx []))
  | cons t us =>
      intro e he
      rw [expect] at he
      split at he
      · cases he
      · obtain rfl := Except.error.inj he
        exact .expected kind htext (isNext_cons ctx t us)

theorem expect_kind_isBlamed (ctx : Context) (kind : TokenKind) (ts : List Token) :
    (expect ctx.endLine kind none ts).IsBlamed ctx :=
  expect_isBlamed ctx kind (by simp) ts

theorem expect_text_isBlamed (ctx : Context) (kind : TokenKind) {text : String}
    (htext : text ∈ expectedTexts) (ts : List Token) :
    (expect ctx.endLine kind (some text) ts).IsBlamed ctx :=
  expect_isBlamed ctx kind (by simpa using htext) ts

section

variable (ctx : Context)

/-! ### Expressions

By the recursion of the reader, one statement for each function.
-/

mutual

/-- **A failure in an expression** names a token of the expression or the one after
it, or comes from an f-string in it. -/
theorem expression_isBlamed (m : Nat) (ts : List Token) :
    (expression ctx m ts).IsBlamed ctx := by
  rw [expression]
  exact (unary_isBlamed ts).andThen fun left us _ => climb_isBlamed m left us
termination_by 8 * ts.length + 5
decreasing_by all_goals omega

theorem climb_isBlamed (m : Nat) (left : Expr) (ts : List Token) :
    (climb ctx m left ts).IsBlamed ctx := by
  match ts with
  | [] =>
      rw [climb]
      exact isBlamed_done ctx left
  | t :: us =>
      rw [climb]
      split
      · exact isBlamed_done ctx left
      · rename_i op _
        split
        · exact isBlamed_done ctx left
        · refine .loosen (.consume ((expression_isBlamed (op.precedence + 1) us).andThen ?_))
          exact fun right vs _ => climb_isBlamed m (.binary left op right t.line) vs
termination_by 8 * ts.length
decreasing_by all_goals simp only [List.length_cons]; omega

theorem unary_isBlamed (ts : List Token) : (unary ctx ts).IsBlamed ctx := by
  match ts with
  | [] =>
      rw [unary]
      exact primary_isBlamed []
  | t :: us =>
      rw [unary]
      split
      · exact .consume ((unary_isBlamed us).map _)
      · exact primary_isBlamed (t :: us)
termination_by 8 * ts.length + 4
decreasing_by all_goals simp only [List.length_cons, List.length_nil]; omega

theorem primary_isBlamed (ts : List Token) : (primary ctx ts).IsBlamed ctx := by
  rw [primary]
  exact (atom_isBlamed ts).andThen fun base us _ => trailers_isBlamed base us
termination_by 8 * ts.length + 3
decreasing_by all_goals omega

theorem trailers_isBlamed (base : Expr) (ts : List Token) :
    (trailers ctx base ts).IsBlamed ctx := by
  match ts with
  | [] =>
      rw [trailers]
      exact isBlamed_done ctx base
  | t :: us =>
      rw [trailers]
      split
      · refine .loosen (.consume ((expect_kind_isBlamed ctx .identifier us).andThen ?_))
        exact fun name vs _ => trailers_isBlamed (.attr base name.text) vs
      · split
        · refine .loosen (.consume ((arguments_isBlamed us).andThen ?_))
          exact fun args vs _ => trailers_isBlamed (.call base args) vs
        · split
          · refine .loosen (.consume ((expression_isBlamed 0 us).andThen fun position vs _ => ?_))
            refine (expect_text_isBlamed ctx .delimiter (by decide) vs).andThen fun _ ws _ => ?_
            exact trailers_isBlamed (.index base position) ws
          · exact isBlamed_done ctx base
termination_by 8 * ts.length
decreasing_by all_goals simp only [List.length_cons]; omega

theorem atom_isBlamed (ts : List Token) : (atom ctx ts).IsBlamed ctx := by
  match ts with
  | [] =>
      rw [atom]
      exact isBlamed_fail (.unexpected (isNext_eof ctx []))
  | t :: us =>
      have hself : Blames ctx (t :: us) (unexpected t) := .unexpected (isNext_cons ctx t us)
      rw [atom]
      split
      · rename_i hkind
        intro e he
        split at he
        · cases he
        · rename_i hvalue
          obtain rfl := Except.error.inj he
          exact .invalidNumber List.mem_cons_self hkind hvalue
      · exact .consume (isBlamed_done ctx _)
      · rename_i hkind
        intro e he
        -- The failure is that of the f-string.
        cases hread : ctx.fstring t.text t.line with
        | ok parts =>
            simp only [Step.consume, Step.ofExcept, hread] at he
            cases he
        | error failure =>
            simp only [Step.consume, Step.ofExcept, hread] at he
            obtain rfl := Except.error.inj he
            exact .fstring List.mem_cons_self hkind hread
      · exact .consume (isBlamed_done ctx _)
      · split
        · exact .consume (isBlamed_done ctx _)
        · exact isBlamed_fail hself
      · split
        · refine .consume ((expression_isBlamed 0 us).andThen fun inner vs _ => ?_)
          exact (expect_text_isBlamed ctx .delimiter (by decide) vs).map _
        · split
          · exact .consume ((items_isBlamed us).map _)
          · exact isBlamed_fail hself
      · exact isBlamed_fail hself
termination_by 8 * ts.length + 2
decreasing_by all_goals simp only [List.length_cons]; omega

theorem arguments_isBlamed (ts : List Token) : (arguments ctx ts).IsBlamed ctx := by
  rw [arguments]
  split
  · exact (expect_text_isBlamed ctx .delimiter (by decide) ts).map _
  · exact (expression_isBlamed 0 ts).andThen fun arg us _ => (moreArguments_isBlamed us).map _
termination_by 8 * ts.length + 6
decreasing_by all_goals omega

theorem moreArguments_isBlamed (ts : List Token) : (moreArguments ctx ts).IsBlamed ctx := by
  match ts with
  | [] =>
      rw [moreArguments]
      exact (expect_text_isBlamed ctx .delimiter (by decide) []).map _
  | t :: us =>
      rw [moreArguments]
      split
      · refine .consume ((expression_isBlamed 0 us).andThen fun arg vs _ => ?_)
        exact (moreArguments_isBlamed vs).map _
      · exact (expect_text_isBlamed ctx .delimiter (by decide) (t :: us)).map _
termination_by 8 * ts.length
decreasing_by all_goals simp only [List.length_cons]; omega

theorem items_isBlamed (ts : List Token) : (items ctx ts).IsBlamed ctx := by
  rw [items]
  split
  · exact (expect_text_isBlamed ctx .delimiter (by decide) ts).map _
  · exact (expression_isBlamed 0 ts).andThen fun item us _ => (moreItems_isBlamed us).map _
termination_by 8 * ts.length + 6
decreasing_by all_goals omega

theorem moreItems_isBlamed (ts : List Token) : (moreItems ctx ts).IsBlamed ctx := by
  match ts with
  | [] =>
      rw [moreItems]
      exact (expect_text_isBlamed ctx .delimiter (by decide) []).map _
  | t :: us =>
      rw [moreItems]
      split
      · exact .consume (items_isBlamed us)
      · exact (expect_text_isBlamed ctx .delimiter (by decide) (t :: us)).map _
termination_by 8 * ts.length
decreasing_by all_goals simp only [List.length_cons]; omega

end

/-! ### Simple statements -/

theorem ending_isBlamed (ts : List Token) : (ending ts).IsBlamed ctx := by
  cases ts with
  | nil => exact isBlamed_done ctx ()
  | cons t us =>
      rw [ending]
      split
      · exact isBlamed_done ctx ()
      · split
        · exact .loosen (.consume (isBlamed_done ctx ()))
        · exact isBlamed_fail (.unfinished List.mem_cons_self)

theorem moreParts_isBlamed (ts : List Token) : (moreParts ctx ts).IsBlamed ctx := by
  match ts with
  | [] =>
      rw [moreParts]
      exact isBlamed_done ctx []
  | t :: us =>
      rw [moreParts]
      split
      · refine .loosen (.consume ((expect_kind_isBlamed ctx .identifier us).andThen ?_))
        exact fun part vs _ => (moreParts_isBlamed vs).map _
      · exact isBlamed_done ctx []
termination_by ts.length
decreasing_by simp only [List.length_cons]; omega

theorem returned_isBlamed (ts : List Token) : (returned ctx ts).IsBlamed ctx := by
  rw [returned]
  split
  · exact isBlamed_done ctx _
  · exact .loosen ((expression_isBlamed ctx 0 ts).map _)

/-- A wrong target is put on the line of the statement, which has begun before. -/
theorem assignment_eq_error {line : Nat} {target : Expr} {ts : List Token} {e : Failure}
    (h : (assignment ctx line target ts).result = .error e) :
    Blames ctx ts e ∨ e = .parse line .invalidTarget := by
  cases ts with
  | nil => cases h
  | cons t us =>
      rw [assignment] at h
      split at h
      · cases h
      · simp only [Step.loosen, Step.consume] at h
        rcases Step.andThen_eq_error h with hvalue | ⟨value, vs, _, -, hassigned⟩
        · exact .inl ((expression_isBlamed ctx 0 us e hvalue).of_suffix (List.suffix_cons t us))
        · split at hassigned
          · cases hassigned
          · exact .inr (Except.error.inj hassigned).symm

/-- An invalid target is put on the line where the statement starts, which is that
of its first token. -/
theorem expressionStatement_isBlamed (ts : List Token) :
    (expressionStatement ctx ts).IsBlamed ctx := by
  intro e he
  rcases Step.andThen_eq_error he with htarget | ⟨target, us, hle, hs, hrest⟩
  · exact expression_isBlamed ctx 0 ts e htarget
  · rcases assignment_eq_error ctx hrest with hblames | rfl
    · exact hblames.of_suffix hs
    · -- The expression on the left has taken the first token of the statement.
      cases ts with
      | nil => simp at hle
      | cons first ts => exact .invalidTarget List.mem_cons_self

/-- A simple statement fails as its parts do. -/
theorem simple_isBlamed (ts : List Token) : (simple ctx ts).IsBlamed ctx := by
  cases ts with
  | nil => exact expressionStatement_isBlamed ctx []
  | cons t us =>
      rw [simple]
      split
      · exact .consume (returned_isBlamed ctx us)
      · split
        · refine .consume ((expect_kind_isBlamed ctx .identifier us).andThen fun first vs _ => ?_)
          exact (moreParts_isBlamed ctx vs).map _
        · split
          · exact .consume (isBlamed_done ctx _)
          · split
            · exact .consume (isBlamed_done ctx _)
            · split
              · exact .consume (isBlamed_done ctx _)
              · exact expressionStatement_isBlamed ctx (t :: us)

/-! ### Parameters -/

theorem moreParameters_isBlamed (ts : List Token) : (moreParameters ctx ts).IsBlamed ctx := by
  match ts with
  | [] =>
      rw [moreParameters]
      exact (expect_text_isBlamed ctx .delimiter (by decide) []).map _
  | t :: us =>
      rw [moreParameters]
      split
      · refine .consume ((expect_kind_isBlamed ctx .identifier us).andThen fun name vs _ => ?_)
        exact (moreParameters_isBlamed vs).map _
      · exact (expect_text_isBlamed ctx .delimiter (by decide) (t :: us)).map _
termination_by ts.length
decreasing_by simp only [List.length_cons]; omega

theorem parameters_isBlamed (ts : List Token) : (parameters ctx ts).IsBlamed ctx := by
  rw [parameters]
  split
  · exact (expect_text_isBlamed ctx .delimiter (by decide) ts).map _
  · refine (expect_kind_isBlamed ctx .identifier ts).andThen fun name us _ => ?_
    exact (moreParameters_isBlamed ctx us).map _

/-! ### Blocks and compound statements

Blocks are read by the statements' own recursion, and a failure inside one ends the
reading of all around it.
-/

mutual

/-- **A failure in a statement**, at any depth of its blocks. -/
theorem statement_isBlamed (ts : List Token) : (statement ctx ts).IsBlamed ctx := by
  match ts with
  | [] =>
      rw [statement]
      exact (simple_isBlamed ctx []).map _
  | t :: us =>
      rw [statement]
      split
      · exact .consume (isBlamed_done ctx _)
      · split
        · exact .consume ((functionDef_isBlamed us).map _)
        · split
          · exact .consume ((classDef_isBlamed us).map _)
          · split
            · exact .consume ((conditional_isBlamed us).map _)
            · split
              · exact .consume ((forLoop_isBlamed us).map _)
              · split
                · exact .consume ((whileLoop_isBlamed us).map _)
                · refine (simple_isBlamed ctx (t :: us)).andThen fun s vs _ => ?_
                  exact (ending_isBlamed ctx vs).map _
termination_by 2 * ts.length
decreasing_by all_goals simp only [List.length_cons]; omega

theorem block_isBlamed (ts : List Token) : (block ctx ts).IsBlamed ctx := by
  rw [block]
  refine (expect_text_isBlamed ctx .delimiter (by decide) ts).andThen fun _ us _ => ?_
  refine (expect_kind_isBlamed ctx .newline us).andThen fun _ vs _ => ?_
  exact (expect_kind_isBlamed ctx .indent vs).andThen fun _ ws _ => blockBody_isBlamed ws
termination_by 2 * ts.length
decreasing_by omega

theorem blockBody_isBlamed (ts : List Token) : (blockBody ctx ts).IsBlamed ctx := by
  match ts with
  | [] =>
      rw [blockBody]
      exact isBlamed_done ctx []
  | t :: us =>
      rw [blockBody]
      split
      · exact .loosen (.consume (isBlamed_done ctx []))
      · refine .loosen ((statement_isBlamed (t :: us)).andThen fun s vs _ => ?_)
        exact (blockBody_isBlamed vs).map _
termination_by 2 * ts.length + 1
decreasing_by all_goals simp only [List.length_cons] at *; omega

theorem functionDef_isBlamed (ts : List Token) : (functionDef ctx ts).IsBlamed ctx := by
  rw [functionDef]
  refine (expect_kind_isBlamed ctx .identifier ts).andThen fun name us _ => ?_
  refine (expect_text_isBlamed ctx .delimiter (by decide) us).andThen fun _ vs _ => ?_
  exact (parameters_isBlamed ctx vs).andThen fun params ws _ => (block_isBlamed ws).map _
termination_by 2 * ts.length
decreasing_by omega

theorem classDef_isBlamed (ts : List Token) : (classDef ctx ts).IsBlamed ctx := by
  rw [classDef]
  refine (expect_kind_isBlamed ctx .identifier ts).andThen fun name us _ => ?_
  exact (block_isBlamed us).map _
termination_by 2 * ts.length
decreasing_by omega

theorem conditional_isBlamed (ts : List Token) : (conditional ctx ts).IsBlamed ctx := by
  rw [conditional]
  refine (expression_isBlamed ctx 0 ts).andThen fun condition us _ => ?_
  exact (block_isBlamed us).andThen fun body vs _ => (alternate_isBlamed vs).map _
termination_by 2 * ts.length
decreasing_by all_goals omega

theorem alternate_isBlamed (ts : List Token) : (alternate ctx ts).IsBlamed ctx := by
  match ts with
  | [] =>
      rw [alternate]
      exact isBlamed_done ctx _
  | t :: us =>
      rw [alternate]
      split
      · refine .loosen (.consume ((expression_isBlamed ctx 0 us).andThen fun condition vs _ => ?_))
        exact (block_isBlamed vs).andThen fun body ws _ => (alternate_isBlamed ws).map _
      · split
        · exact .loosen (.consume ((block_isBlamed us).map _))
        · exact isBlamed_done ctx _
termination_by 2 * ts.length
decreasing_by all_goals simp only [List.length_cons]; omega

theorem loopElse_isBlamed (ts : List Token) : (loopElse ctx ts).IsBlamed ctx := by
  match ts with
  | [] =>
      rw [loopElse]
      exact isBlamed_done ctx []
  | t :: us =>
      rw [loopElse]
      split
      · exact .loosen (.consume (block_isBlamed us))
      · exact isBlamed_done ctx []
termination_by 2 * ts.length
decreasing_by simp only [List.length_cons]; omega

theorem forLoop_isBlamed (ts : List Token) : (forLoop ctx ts).IsBlamed ctx := by
  rw [forLoop]
  refine (primary_isBlamed ctx ts).andThen fun target us _ => ?_
  refine (expect_text_isBlamed ctx .keyword (by decide) us).andThen fun _ vs _ => ?_
  refine (expression_isBlamed ctx 0 vs).andThen fun iter ws _ => ?_
  exact (block_isBlamed ws).andThen fun body xs _ => (loopElse_isBlamed xs).map _
termination_by 2 * ts.length
decreasing_by all_goals omega

theorem whileLoop_isBlamed (ts : List Token) : (whileLoop ctx ts).IsBlamed ctx := by
  rw [whileLoop]
  refine (expression_isBlamed ctx 0 ts).andThen fun condition us _ => ?_
  exact (block_isBlamed us).andThen fun body vs _ => (loopElse_isBlamed vs).map _
termination_by 2 * ts.length
decreasing_by all_goals omega

end

/-! ### Programs -/

/-- A program fails with one of the failures of its tokens. -/
theorem program_isBlamed (ts : List Token) : (program ctx ts).IsBlamed ctx := by
  match ts with
  | [] =>
      rw [program]
      exact isBlamed_done ctx []
  | t :: us =>
      rw [program]
      split
      · exact .loosen (.consume (program_isBlamed us))
      · refine .loosen ((statement_isBlamed ctx (t :: us)).andThen fun s vs _ => ?_)
        exact (program_isBlamed vs).map _
termination_by ts.length
decreasing_by all_goals simp only [List.length_cons] at *; omega

end

end Grammar

/-- The tokens of a program are rejected for one of them, or for their end. -/
theorem Program.blames_of_ofTokens {ts : List Token} {e : Failure} (h : ofTokens ts = .error e) :
    Grammar.Blames ⟨Grammar.endLine ts, fstringReader⟩ ts e := by
  have hprogram := (Grammar.program_isBlamed ⟨Grammar.endLine ts, fstringReader⟩ ts).map Program.mk
  exact hprogram e h

/-! ### F-strings

The expressions in placeholders have tokens of their own, on the line of the f-string.
-/

namespace FString

/-- What is wrong with the braces of a text that has been cut. -/
def Body.fault? : Body → Option FStringFault
  | .text _ => none
  | .hole _ _ rest => rest.fault?
  | .broken fault => some fault

/-- The failures that reading the text of an f-string on `line` can end in. -/
inductive Fails (content : List Char) (line : Nat) : Failure → Prop where
  /-- A brace without its partner. -/
  | braces {fault : FStringFault} :
      (cut content).fault? = some fault → Fails content line (.fstring line fault)
  /-- A placeholder that holds more than an expression. -/
  | trailing {source : List Char} :
      source ∈ (cut content).sources →
      Fails content line (.fstring line (.trailing (String.ofList source)))
  /-- A placeholder that holds no expression. -/
  | placeholder {source : List Char} {e : Failure} :
      source ∈ (cut content).sources →
      Grammar.Blames
        ⟨Grammar.endLine (Token.ofExpression source line), Program.fstringReader⟩
        (Token.ofExpression source line) e →
      Fails content line e

/-- An f-string fails for its braces or for one of its placeholders. -/
theorem Body.read_eq_error {line : Nat} {expression : List Char → Except Failure Expr} {b : Body}
    {e : Failure} (h : b.read line expression = .error e) :
    (∃ fault, b.fault? = some fault ∧ e = .fstring line fault) ∨
      ∃ source ∈ b.sources, expression source = .error e := by
  induction b with
  | text chars => cases h
  | hole chars source rest ih =>
      cases hfirst : expression source with
      | error failure =>
          rw [Body.read, hfirst] at h
          obtain rfl := Except.error.inj h
          exact .inr ⟨source, List.mem_cons_self, hfirst⟩
      | ok first =>
          cases hrest : rest.read line expression with
          | ok parts => simp [Body.read, hfirst, hrest, bind, Except.bind, pure, Except.pure] at h
          | error failure =>
              rw [Body.read, hfirst, hrest] at h
              obtain rfl := Except.error.inj h
              rcases ih hrest with hfault | ⟨source', hsource', hread⟩
              · exact .inl hfault
              · exact .inr ⟨source', List.mem_cons_of_mem source hsource', hread⟩
  | broken fault => exact .inl ⟨fault, rfl, (Except.error.inj h).symm⟩

/-- A placeholder fails for its expression, or for what comes after it. -/
theorem whole_eq_error {r : Grammar.Reader} {trailing e : Failure} {ts : List Token}
    (h : whole r trailing ts = .error e) :
    e = trailing ∨ Grammar.Blames ⟨Grammar.endLine ts, r⟩ ts e := by
  unfold whole at h
  split at h
  · cases h
  · exact .inl (Except.error.inj h).symm
  · rename_i failure rest hrun
    obtain rfl := Except.error.inj h
    exact .inr (Grammar.expression_isBlamed _ 0 ts failure (congrArg Prod.fst hrun))

/-- Reading the text of an f-string fails with one of the failures of its braces
and its placeholders. -/
theorem fails_of_read {content : List Char} {line : Nat} {e : Failure}
    (h : read content line = .error e) : Fails content line e := by
  rw [read_eq] at h
  rcases Body.read_eq_error h with ⟨fault, hfault, rfl⟩ | ⟨source, hsource, hread⟩
  · exact .braces hfault
  · rcases whole_eq_error hread with rfl | hblames
    · exact .trailing hsource
    · exact .placeholder hsource hblames

end FString

end Offside
