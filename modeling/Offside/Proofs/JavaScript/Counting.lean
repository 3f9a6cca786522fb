import Mathlib.Logic.Function.Basic
import Offside.Proofs.JavaScript.Arithmetic
import Offside.Target.Stmt

/-!
# Offside.Proofs.JavaScript.Counting

Counting loops in JavaScript. The header

```text
for (var i = start; i < stop; i += amount)
```

is read from its text (`Counting.read?`) and run over the integers: it sets its
variable once, tests it before each round and changes it after each round
(`Counting.Rounds`). A reserved word is no variable, so that a header that declares
one is not read.

The header that is written for a loop **is read as the clauses that it was written
from** (`Counting.read?_render`).
-/

namespace Offside.Target

open Offside.Target.Lexeme (Scans anyChar endsPunctuator)

/-! ### Reading -/

/-- A clause of a header: a variable, a symbol and an operand. -/
structure Clause where
  name : String
  /-- The symbol is the one of a loop that counts down. -/
  descends : Bool
  operand : Expr

/-- The header of a loop that counts. -/
structure Counting where
  declaration : Clause
  test : Clause
  update : Clause

/-- The lexemes after the given ones. -/
def skip? (xs ls : List Lexeme) : Option (List Lexeme) :=
  if xs.isPrefixOf ls then some (ls.drop xs.length) else none

/-- The clause at the head of lexemes, where the symbol is one of two and the operand is
of the given tier, and the lexemes after it. -/
def clause? (tier : Nat) (up down : String) : List Lexeme → Option (Clause × List Lexeme)
  | .name text :: .punctuator symbol :: ls =>
    match named? text with
    | some (.name name) =>
      if symbol = up ∨ symbol = down then
        (operation tier ls).result.map fun (operand, rest) => (⟨name, symbol ≠ up, operand⟩, rest)
      else none
    | _ => none
  | _ => none

namespace Counting

/-- The header with the given text. -/
def read? (text : String) : Option Counting := do
  let ls ← Lexeme.scan 0 text.toList
  let ls ← skip? [.name "for", .punctuator "(", .name "var"] ls
  let (declaration, ls) ← clause? 6 "=" "=" ls
  let ls ← skip? [.punctuator ";"] ls
  -- The operand of the test is no comparison itself: `a < b < c` compares `a < b` with `c`.
  let (test, ls) ← clause? 2 "<" ">" ls
  let ls ← skip? [.punctuator ";"] ls
  let (update, ls) ← clause? 6 "+=" "-=" ls
  if ls = [.punctuator ")"] then some ⟨declaration, test, update⟩ else none

/-! ### Running -/

variable {σ : Type} (loop : Counting)

/-- The variables after the declaration. -/
def begin? (env : String → Int) : Option (String → Int) :=
  (loop.declaration.operand.value? env).map (Function.update env loop.declaration.name)

/-- There is another round. -/
def test? (env : String → Int) : Option Bool :=
  (loop.test.operand.value? env).map fun v =>
    if loop.test.descends then decide (v < env loop.test.name)
    else decide (env loop.test.name < v)

/-- The variables after the change at the end of a round. -/
def advance? (env : String → Int) : Option (String → Int) :=
  (loop.update.operand.value? env).map fun v =>
    Function.update env loop.update.name
      (if loop.update.descends then env loop.update.name - v else env loop.update.name + v)

/-- The rounds of a loop. A state is the values of the variables and whatever else the
body works on; between two states, the values that `target` has when the body is run
are listed in their order. -/
inductive Rounds (target : String) (body : (String → Int) × σ → (String → Int) × σ) :
    (String → Int) × σ → List Int → (String → Int) × σ → Prop where
  | done {s : (String → Int) × σ} : loop.test? s.1 = some false → Rounds target body s [] s
  | round {s final : (String → Int) × σ} {env : String → Int} {vs : List Int} :
      loop.test? s.1 = some true → loop.advance? (body s).1 = some env →
      Rounds target body (env, (body s).2) vs final →
      Rounds target body s (s.1 target :: vs) final

/-- A loop with the given header runs to its end. -/
def Runs (text target : String) (body : (String → Int) × σ → (String → Int) × σ)
    (s : (String → Int) × σ) (vs : List Int) (final : (String → Int) × σ) : Prop :=
  ∃ loop env, read? text = some loop ∧ loop.begin? s.1 = some env ∧
    loop.Rounds target body (env, s.2) vs final

variable {loop}

/-- A loop runs in one way. -/
theorem Rounds.unique {target : String} {body : (String → Int) × σ → (String → Int) × σ}
    {s final final' : (String → Int) × σ} {vs vs' : List Int}
    (h : loop.Rounds target body s vs final) (h' : loop.Rounds target body s vs' final') :
    vs = vs' ∧ final = final' := by
  induction h generalizing vs' with
  | done htest =>
      cases h' with
      | done => exact ⟨rfl, rfl⟩
      | round htest' => cases htest.symm.trans htest'
  | round htest hadvance _ ih =>
      cases h' with
      | done htest' => cases htest.symm.trans htest'
      | round _ hadvance' hrest =>
          obtain rfl := Option.some.inj (hadvance.symm.trans hadvance')
          obtain ⟨rfl, rfl⟩ := ih hrest
          exact ⟨rfl, rfl⟩

theorem Runs.unique {text target : String} {body : (String → Int) × σ → (String → Int) × σ}
    {s final final' : (String → Int) × σ} {vs vs' : List Int}
    (h : Runs text target body s vs final) (h' : Runs text target body s vs' final') :
    vs = vs' ∧ final = final' := by
  obtain ⟨loop, env, hread, hbegin, hrounds⟩ := h
  obtain ⟨loop', env', hread', hbegin', hrounds'⟩ := h'
  obtain rfl := Option.some.inj (hread.symm.trans hread')
  obtain rfl := Option.some.inj (hbegin.symm.trans hbegin')
  exact hrounds.unique hrounds'

end Counting

/-! ### Clauses -/

/-- The text of a clause. -/
def clauseCode (name symbol : String) (e : Expr) : List Char :=
  name.toList ++ ((" " ++ symbol ++ " ").toList ++ e.render.toList)

/-- The lexemes of a clause. -/
def clauseLexemes (name symbol : String) (e : Expr) : List Lexeme :=
  .name name :: .punctuator symbol :: e.lexemes

/-- The symbols of clauses. -/
def clauseSymbols : List String := ["=", "<", ">", "+=", "-="]

/-- A clause is cut into its lexemes before the mark that ends it. -/
theorem scans_clause {name symbol : String} (hname : Lexeme.isName name.toList = true)
    (hsymbol : symbol ∈ clauseSymbols) {e : Expr} (he : e.IsSpelled) {c : Char}
    (hc : c = ';' ∨ c = ')') {text : List Char} {ls : List Lexeme}
    (hrest : Scans anyChar (c :: text) ls) :
    Scans anyChar (clauseCode name symbol e ++ c :: text) (clauseLexemes name symbol e ++ ls) := by
  have hsymbols : ∀ s ∈ clauseSymbols, s.toList ∈ Lexeme.punctuators ∧ s.toList ≠ ['\x7d'] ∧
      endsPunctuator s ' ' = true := by decide
  obtain ⟨hmem, hne, hspace⟩ := hsymbols symbol hsymbol
  have hfollows : e.follows c = true := by
    rcases hc with rfl | rfl <;> exact follows_of_mem (by decide) e
  have hname' := (Lexeme.cuts_name hname).scans
  rw [String.ofList_toList] at hname'
  have hoperand := (Expr.isScanned_of_isSpelled e he).append hrest ⟨c, rfl, hfollows⟩
  have hoperation := (scans_spaced hmem hne hspace).append_any hoperand
  have hall := hname'.append hoperation ⟨' ', by simp, by decide⟩
  rw [clauseCode, List.append_assoc, List.append_assoc]
  exact hall

/-- A tree can be told from its text as the operand of a clause. -/
structure Expr.IsOperand (t : Expr) : Prop where
  spelled : t.IsSpelled
  read : IsRead t
  tier_le : t.tier ≤ 2

theorem clause?_clauseLexemes {tier : Nat} {name symbol up down : String} {e : Expr}
    (hname : reservedWords.contains name = false) (hsymbol : symbol = up ∨ symbol = down) (he : e.IsOperand) (htier : 2 ≤ tier)
    {rest : List Lexeme} (hrest : Ends tier rest) :
    clause? tier up down (clauseLexemes name symbol e ++ rest) =
      some (⟨name, symbol ≠ up, e⟩, rest) := by
  rw [clauseLexemes, List.cons_append, List.cons_append, clause?, named?_of_not_reserved hname]
  dsimp only
  rw [if_pos hsymbol, he.read.reads tier (Nat.le_trans he.tier_le htier) rest hrest, Option.map_some]

theorem skip?_append (xs ls : List Lexeme) : skip? xs (xs ++ ls) = some ls := by
  rw [skip?, if_pos (List.isPrefixOf_iff_prefix.2 (List.prefix_append xs ls)), List.drop_left]

theorem ends_semicolon (rest : List Lexeme) : Ends 6 (.punctuator ";" :: rest) := by
  constructor
  · rintro x ⟨⟩
    rfl
  · rintro x ⟨⟩ op heq
    cases op <;> exact absurd heq (by decide)

/-- The symbol of the test of a header. -/
def testSymbol (descending : Bool) : String := if descending then ">" else "<"

/-- The symbol of the change in a header. -/
def updateSymbol (descending : Bool) : String := if descending then "-=" else "+="

/-- The lexemes of a header. -/
def headerLexemes (target : String) (start stop amount : Expr) (descending : Bool) :
    List Lexeme :=
  [.name "for", .punctuator "(", .name "var"] ++ (clauseLexemes target "=" start ++
    .punctuator ";" :: (clauseLexemes target (testSymbol descending) stop ++
      .punctuator ";" :: (clauseLexemes target (updateSymbol descending) amount ++
        [.punctuator ")"])))

/-- The text of a header is its clauses with marks between them. -/
theorem toList_render_counted (target : String) (start stop amount : Expr) (descending : Bool) :
    (LoopHeader.counted (.name target) start stop descending amount.render).render.toList =
      "for (var ".toList ++ (clauseCode target "=" start ++ ("; ".toList ++
        (clauseCode target (testSymbol descending) stop ++ ("; ".toList ++
          (clauseCode target (updateSymbol descending) amount ++ ")".toList))))) := by
  have hsymbols : (LoopHeader.counted (.name target) start stop descending amount.render).render =
      "for (var " ++ target ++ (" " ++ "=" ++ " ") ++ start.render ++ "; " ++ target ++
        (" " ++ testSymbol descending ++ " ") ++ stop.render ++ "; " ++ target ++
        (" " ++ updateSymbol descending ++ " ") ++ amount.render ++ ")" := by
    cases descending with
    | true => rfl
    | false => rfl
  have hcut (opening t s₁ a mark s₂ b s₃ c closing : String) :
      (opening ++ t ++ s₁ ++ a ++ mark ++ t ++ s₂ ++ b ++ mark ++ t ++ s₃ ++ c ++ closing).toList =
        opening.toList ++ ((t.toList ++ (s₁.toList ++ a.toList)) ++ (mark.toList ++
          ((t.toList ++ (s₂.toList ++ b.toList)) ++ (mark.toList ++
            ((t.toList ++ (s₃.toList ++ c.toList)) ++ closing.toList))))) := by
    simp only [String.toList_append, List.append_assoc]
  rw [hsymbols, hcut]
  rfl

theorem scans_opening : Scans anyChar "for (var ".toList
    [.name "for", .punctuator "(", .name "var"] := by
  have hfor : Scans Lexeme.endsName "for".toList [.name "for"] :=
    (Lexeme.cuts_name (by decide)).scans
  have hvar : Scans Lexeme.endsName "var".toList [.name "var"] :=
    (Lexeme.cuts_name (by decide)).scans
  have hdeclare := hvar.append Lexeme.scans_space ⟨' ', rfl, by decide⟩
  have hbracket := (scans_bracket (by decide : "(" ∈ _)).append_any hdeclare
  exact hfor.append (Lexeme.scans_space.append_any hbracket) ⟨' ', rfl, by decide⟩

theorem scan_headerLexemes {target : String} (htarget : Lexeme.isName target.toList = true)
    {start stop amount : Expr} (hstart : start.IsSpelled) (hstop : stop.IsSpelled)
    (hamount : amount.IsSpelled) (descending : Bool) :
    Lexeme.scan 0
      (LoopHeader.counted (.name target) start stop descending amount.render).render.toList =
        some (headerLexemes target start stop amount descending) := by
  have hmark {text : List Char} {ls : List Lexeme} (h : Scans anyChar text ls) :
      Scans anyChar (';' :: ' ' :: text) (.punctuator ";" :: ls) :=
    (scans_bracket (by decide : ";" ∈ _)).append_any (Lexeme.scans_space.append_any h)
  have hupdateSymbol : updateSymbol descending ∈ clauseSymbols := by cases descending <;> decide
  have htestSymbol : testSymbol descending ∈ clauseSymbols := by cases descending <;> decide
  have hupdate := scans_clause htarget hupdateSymbol hamount (.inr rfl)
    (scans_bracket (by decide : ")" ∈ _))
  have htest := scans_clause htarget htestSymbol hstop (.inl rfl) (hmark hupdate)
  have hbegin := scans_clause htarget (by decide : "=" ∈ clauseSymbols) hstart (.inl rfl)
    (hmark htest)
  have hall := scans_opening.append_any hbegin 0 [] (by simp)
  rw [List.append_nil, Lexeme.scan_nil, Option.map_some, List.append_nil] at hall
  rw [toList_render_counted]
  exact hall

/-- A header is read as the clauses that it was written from. -/
theorem Counting.read?_render {target : String} (htarget : Lexeme.isName target.toList = true)
    (hfree : reservedWords.contains target = false) {start stop amount : Expr} (hstart : start.IsOperand) (hstop : stop.IsOperand)
    (hamount : amount.IsOperand) (descending : Bool) :
    read? (LoopHeader.counted (.name target) start stop descending amount.render).render =
      some ⟨⟨target, false, start⟩, ⟨target, descending, stop⟩, ⟨target, descending, amount⟩⟩ := by
  have hmark (ls : List Lexeme) : skip? [.punctuator ";"] (.punctuator ";" :: ls) = some ls :=
    skip?_append [_] ls
  have hbegin (ls : List Lexeme) : clause? 6 "=" "=" (clauseLexemes target "=" start ++
      .punctuator ";" :: ls) = some (⟨target, false, start⟩, .punctuator ";" :: ls) :=
    clause?_clauseLexemes hfree (.inl rfl) hstart (by decide) (ends_semicolon ls)
  have htest (ls : List Lexeme) : clause? 2 "<" ">" (clauseLexemes target (testSymbol descending)
      stop ++ .punctuator ";" :: ls) =
        some (⟨target, descending, stop⟩, .punctuator ";" :: ls) := by
    rw [clause?_clauseLexemes hfree (by cases descending <;> decide) hstop (by decide)
      ((ends_semicolon ls).mono (by decide))]
    cases descending <;> rfl
  have hupdate : clause? 6 "+=" "-=" (clauseLexemes target (updateSymbol descending) amount ++
      [.punctuator ")"]) = some (⟨target, descending, amount⟩, [.punctuator ")"]) := by
    rw [clause?_clauseLexemes hfree (by cases descending <;> decide) hamount (by decide)
      (ends_closer (by decide) [])]
    cases descending <;> rfl
  rw [read?, scan_headerLexemes htarget hstart.spelled hstop.spelled hamount.spelled descending,
    headerLexemes]
  simp only [Option.bind_eq_bind, Option.bind_some, skip?_append, hbegin, hmark, htest, hupdate,
    if_pos]

end Offside.Target
