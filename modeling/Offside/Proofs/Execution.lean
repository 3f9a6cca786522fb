import Offside.Proofs.Names

/-!
# Offside.Proofs.Execution

What statements **do**, in the source language and in the generated code.

Simple statements, conditions and loop headers are abstract: an
`Interpretation` says which action each of them is and what the action does to
a state of any kind. A definition of a function or a class is one action. What
is concrete is the control flow, and with it

* the **trace**, the sequence of all actions that have been done, and
* the **completion**, the way in which statements end.

Design points:

* A loop header is *asked* before each round whether there is another one. It is
  given its own last answer, so that an interpretation can keep the iterator of
  a loop there, and loops over the same header do not get in each other's way. A
  condition is a header that is asked once.
* Programs need not end. Both languages are run with a **bound** on the rounds of
  each loop, past which everything stops (`Completion.cut`); what a program does
  without end is given by its traces at all bounds.
* The flags of the generated code are variables of the program's state, held
  apart from the rest of it only so that one can speak of them. An action may
  read and write them, unless it is that of a statement without such names. A
  flag is declared by `let`, so the end of a block brings back the flags that
  were hidden by those declared in it.
-/

namespace Offside

/-! ### Completions and configurations -/

/-- The ways in which statements end. -/
inductive Completion where
  | normal
  | broken
  | continued
  | returned
  /-- A loop has come to the bound on its rounds. -/
  | cut
  /-- A flag was tested that is not declared. -/
  | undeclared
deriving DecidableEq, Repr

/-- The values of the flags that are declared. -/
abbrev Flags := String → Option Bool

/-- Something that a program has done. -/
inductive Action (α : Type) where
  | performed (a : α)
  | asked (a : α)
deriving DecidableEq, Repr

/-- A program's state, its flags, and all that it has done. -/
structure Config (α σ : Type) where
  state : σ
  flags : Flags
  trace : List (Action α)

/-- What executes from a configuration. -/
abbrev Run (α σ : Type) := Config α σ → Completion × Config α σ

/-- Give a flag a value. -/
def Config.setFlag {α σ : Type} (c : Config α σ) (flag : String) (value : Bool) : Config α σ :=
  { c with flags := fun name => if name = flag then some value else c.flags name }

/-! ### Interpretations -/

/-- A statement that is one action: neither a conditional nor a loop nor a jump. -/
def Stmt.isLeaf : Stmt → Bool
  | .ifElse .. | .whileLoop .. | .forLoop .. | .breakLoop | .continueLoop => false
  | _ => true

/-- Which parts of the source and of the generated code are **the same action**:
a simple statement and the one statement that takes its place, a condition and
its counterpart, the header of a loop and its counterpart. -/
structure Vocabulary (α : Type) where
  /-- The action of a simple statement or a definition. The flag tells whether it
  stands directly in a class. -/
  stmt : Bool → Stmt → α
  condition : Expr → α
  /-- The action of the header of a `for` loop, from its target and what it runs
  over. -/
  header : Expr → Expr → α
  code : Target.Stmt → α
  codeCondition : Target.Expr → α
  codeHeader : Target.LoopHeader → α
  code_lower : ∀ (scope : Scope) (s : Stmt) (flags : Nat) (t : Target.Stmt), s.isLeaf = true →
    ((s.lower scope).run flags).1 = [t] → code t = stmt scope.inClass s
  codeCondition_lower : ∀ e : Expr, codeCondition e.lower = condition e
  codeHeader_lower : ∀ (target iter : Expr) (h : Target.LoopHeader),
    loopHeader target iter = .ok h → codeHeader h = header target iter

/-- An action leaves the flags as they are and does not depend on them. -/
def IgnoresFlags {σ : Type} (f : σ × Flags → σ × Flags) : Prop :=
  ∃ g : σ → σ, ∀ s flags, f (s, flags) = (g s, flags)

/-- A question leaves the flags as they are, and its answer does not depend on
them. -/
def AsksWithoutFlags {ι σ : Type} (f : Option ι → σ × Flags → Option ι × (σ × Flags)) : Prop :=
  ∃ g : Option ι → σ → Option ι × σ,
    ∀ i s flags, f i (s, flags) = ((g i s).1, ((g i s).2, flags))

/-- What actions do to states of type `σ`. A question is answered by `none` for
no and by an iterator for yes. -/
structure Interpretation (α ι σ : Type) extends Vocabulary α where
  perform : α → σ × Flags → σ × Flags
  ask : α → Option ι → σ × Flags → Option ι × (σ × Flags)
  stmt_local : ∀ (inClass : Bool) (s : Stmt), (∀ x ∈ s.names, ¬ IsFlagName x) →
    IgnoresFlags (perform (stmt inClass s))
  condition_local : ∀ e : Expr, (∀ x ∈ e.names, ¬ IsFlagName x) →
    AsksWithoutFlags (ask (condition e))
  header_local : ∀ target iter : Expr, (∀ x ∈ target.names ++ iter.names, ¬ IsFlagName x) →
    AsksWithoutFlags (ask (header target iter))

namespace Interpretation

variable {α ι σ : Type} (I : Interpretation α ι σ)

/-- Do an action. -/
def act (a : α) (c : Config α σ) : Config α σ :=
  let after := I.perform a (c.state, c.flags)
  ⟨after.1, after.2, c.trace ++ [.performed a]⟩

/-- Ask a question. -/
def question (a : α) (last : Option ι) (c : Config α σ) : Option ι × Config α σ :=
  let answer := I.ask a last (c.state, c.flags)
  (answer.1, ⟨answer.2.1, answer.2.2, c.trace ++ [.asked a]⟩)

end Interpretation

/-! ### Control flow -/

section

variable {α ι σ : Type}

/-- Go on after a normal completion. -/
def Run.andThen (r : Completion × Config α σ) (next : Run α σ) : Completion × Config α σ :=
  match r with
  | (.normal, c) => next c
  | ended => ended

/-- The rounds of a loop, at most as many as the bound. The completion is normal
when the header says that there are no more, and `broken` after a `break`. -/
def rounds (question : Option ι → Config α σ → Option ι × Config α σ) (body : Run α σ) :
    Nat → Option ι → Run α σ
  | 0, _, c => (.cut, c)
  | bound + 1, last, c =>
    match question last c with
    | (none, c) => (.normal, c)
    | (some iterator, c) =>
      match body c with
      | (.normal, c) | (.continued, c) => rounds question body bound (some iterator) c
      | ended => ended

/-- The end of a loop of the source: its `else` block runs unless it was left by
`break`, and every other jump in that block is one of what is around the loop. -/
def orElse (ended : Completion × Config α σ) (orelse : Run α σ) : Completion × Config α σ :=
  match ended with
  | (.normal, c) => orelse c
  | (.broken, c) => (.normal, c)
  | ended => ended

/-- The end of a loop of the generated code. -/
def leaveLoop (ended : Completion × Config α σ) : Completion × Config α σ :=
  match ended with
  | (.broken, c) => (.normal, c)
  | ended => ended

end

/-! ### The source language -/

namespace Stmt

variable {α ι σ : Type} (I : Interpretation α ι σ) (bound : Nat)

mutual

/-- Execute a statement, which may stand directly in a class. -/
def exec (inClass : Bool) : Stmt → Run α σ
  | .ifElse condition body alternate => fun c =>
    match I.question (I.condition condition) none c with
    | (some _, c) => execBlock false body c
    | (none, c) => execAlternate alternate c
  | .whileLoop condition body orelse => fun c =>
    orElse (rounds (I.question (I.condition condition)) (execBlock false body) bound none c)
      (execBlock false orelse)
  | .forLoop target iter body orelse => fun c =>
    orElse (rounds (I.question (I.header target iter)) (execBlock false body) bound none c)
      (execBlock false orelse)
  | .breakLoop => fun c => (.broken, c)
  | .continueLoop => fun c => (.continued, c)
  | .returnValue value => fun c => (.returned, I.act (I.stmt inClass (.returnValue value)) c)
  | s => fun c => (.normal, I.act (I.stmt inClass s) c)

/-- Execute the rest of a conditional. -/
def execAlternate : Alternate → Run α σ
  | .none => fun c => (.normal, c)
  | .elseIf condition body alternate => fun c =>
    match I.question (I.condition condition) none c with
    | (some _, c) => execBlock false body c
    | (none, c) => execAlternate alternate c
  | .otherwise body => execBlock false body

/-- Execute statements. -/
def execBlock (inClass : Bool) : List Stmt → Run α σ
  | [] => fun c => (.normal, c)
  | s :: ss => fun c => Run.andThen (exec inClass s c) (execBlock inClass ss)

end

end Stmt

/-! ### The generated code -/

namespace Target

variable {α ι σ : Type}

/-- The flags that a statement declares in the block that it stands in. -/
def Stmt.declared : Stmt → List String
  | .setFlag flag => [flag]
  | _ => []

/-- The flags after a block: those that it declares are as they were before. -/
def leaveBlock (body : List Stmt) (before after : Flags) : Flags := fun name =>
  if name ∈ body.flatMap Stmt.declared then before name else after name

/-- Execute a block of its own. -/
def inBlock (body : List Stmt) (run : Run α σ) : Run α σ := fun c =>
  let (completion, after) := run c
  (completion, { after with flags := leaveBlock body c.flags after.flags })

namespace Stmt

variable (I : Interpretation α ι σ) (bound : Nat)

/-- The action of a loop header. -/
def headerAction : LoopHeader → α
  | .whileTrue condition => I.codeCondition condition
  | header => I.codeHeader header

mutual

/-- Execute a statement. -/
def exec : Stmt → Run α σ
  | .breakLoop => fun c => (.broken, c)
  | .continueLoop => fun c => (.continued, c)
  | .returnValue value => fun c => (.returned, I.act (I.code (.returnValue value)) c)
  | .unsupported _ => fun c => (.normal, c)
  | .setFlag flag => fun c => (.normal, c.setFlag flag true)
  | .clearFlag flag => fun c => (.normal, c.setFlag flag false)
  | .loop header body => fun c =>
    leaveLoop
      (rounds (I.question (headerAction I header)) (inBlock body (execBlock body)) bound none c)
  | .ifFlag flag body => fun c =>
    match c.flags flag with
    | some true => inBlock body (execBlock body) c
    | some false => (.normal, c)
    | none => (.undeclared, c)
  | .ifElse condition body alternate => fun c =>
    match I.question (I.codeCondition condition) none c with
    | (some _, c) => inBlock body (execBlock body) c
    | (none, c) => execAlternate alternate c
  | s => fun c => (.normal, I.act (I.code s) c)

/-- Execute the rest of a conditional. -/
def execAlternate : Alternate → Run α σ
  | .none => fun c => (.normal, c)
  | .elseIf condition body alternate => fun c =>
    match I.question (I.codeCondition condition) none c with
    | (some _, c) => inBlock body (execBlock body) c
    | (none, c) => execAlternate alternate c
  | .otherwise body => inBlock body (execBlock body)

/-- Execute statements. -/
def execBlock : List Stmt → Run α σ
  | [] => fun c => (.normal, c)
  | s :: ss => fun c => Run.andThen (exec s c) (execBlock ss)

end

end Stmt

end Target

end Offside
