import Offside.Proofs.Execution
import Offside.Proofs.JavaScript.Statement
import Offside.Writer

/-!
# Offside.Proofs.LoopElse

The `else` blocks of loops keep their meaning. Main statement:
`exists_code_of_block`, by which the text of statements is that of code that does
the same actions and completes in the same way, for every interpretation of the
simple parts and every bound on the rounds of loops.

The proof is a **simulation** (`Simulates`): the code and the statements run side
by side, in configurations that differ in their flags only. What it says about
flags is what carries the induction:

* code that is lowered from number `n` to number `m` touches no flags but those
  numbered in between, and
* apart from these it clears the flag of the loop around it, and that only when
  it completes by `break`.

So when a loop with a flag has ended, its flag tells whether it was left by
`break`, however deep the jump stood, and an `else` block of an inner loop that
breaks out of the outer one clears the flag of the outer one.
-/

namespace Offside

/-! ### Loops over ranges with too few or too many arguments -/

/-- A call of `range` with another number of arguments than one, two or three. -/
def Expr.isBadRange : Expr → Bool
  | .call (.ident "range") args => args.length = 0 || 3 < args.length
  | _ => false

namespace Stmt

mutual

/-- A statement holds a loop over a bad range, at any depth. -/
def hasBadRange : Stmt → Bool
  | .forLoop _ iter body orelse =>
    iter.isBadRange || blockHasBadRange body || blockHasBadRange orelse
  | .whileLoop _ body orelse => blockHasBadRange body || blockHasBadRange orelse
  | .ifElse _ body alternate => blockHasBadRange body || alternateHasBadRange alternate
  | .functionDef _ _ body | .classDef _ body => blockHasBadRange body
  | _ => false

/-- The rest of a conditional holds a loop over a bad range. -/
def alternateHasBadRange : Alternate → Bool
  | .none => false
  | .elseIf _ body alternate => blockHasBadRange body || alternateHasBadRange alternate
  | .otherwise body => blockHasBadRange body

/-- A block holds a loop over a bad range. -/
def blockHasBadRange : List Stmt → Bool
  | [] => false
  | s :: ss => hasBadRange s || blockHasBadRange ss

end

end Stmt

theorem rangeHeader_ok {target : Target.Expr} {args : List Target.Expr}
    (h : args.length ≠ 0 ∧ args.length ≤ 3) : ∃ header, rangeHeader target args = .ok header := by
  match args, h with
  | [stop], _ => exact ⟨_, rfl⟩
  | [start, stop], _ => exact ⟨_, rfl⟩
  | [start, stop, step], _ => exact ⟨_, rfl⟩
  | [], h => simp at h
  | _ :: _ :: _ :: _ :: _, h => simp only [List.length_cons] at h; omega

/-- A loop over anything but a bad range has a header. -/
theorem loopHeader_ok (target : Expr) {iter : Expr} (h : iter.isBadRange = false) :
    ∃ header, loopHeader target iter = .ok header := by
  unfold loopHeader
  split
  · rename_i args
    refine rangeHeader_ok ?_
    simpa [Expr.isBadRange, Expr.length_lowerAll] using h
  · exact ⟨_, rfl⟩

/-- The header of a `for` loop is not that of a `while` loop. -/
theorem headerAction_loopHeader {α ι σ : Type} (I : Interpretation α ι σ) {target iter : Expr}
    {header : Target.LoopHeader} (h : loopHeader target iter = .ok header) :
    Target.Stmt.headerAction I header = I.header target iter := by
  rw [← I.codeHeader_lower target iter header h]
  cases header with
  | whileTrue condition =>
      exfalso
      unfold loopHeader at h
      split at h
      · unfold rangeHeader countedHeader at h
        split at h <;> (try split at h) <;> cases h
      · cases h
  | each target iterable => rfl
  | counted target start stop descending amount => rfl

/-! ### What code does to flags -/

/-- The flags before and after code that is lowered from number `n` to number
`m`, inside a loop with the given flag. -/
def FlagsKept (flag : Option String) (n m : Nat) (completion : Completion)
    (before after : Flags) : Prop :=
  ∀ name, (∀ j, n < j → j ≤ m → name ≠ flagName j) →
    after name = if completion = .broken ∧ flag = some name then some false else before name

namespace FlagsKept

variable {flag : Option String} {n m : Nat} {completion : Completion} {before middle after : Flags}

theorem mono {n' m' : Nat} (h : FlagsKept flag n m completion before after) (hn : n' ≤ n)
    (hm : m ≤ m') : FlagsKept flag n' m' completion before after := fun name hname =>
  h name fun j hj hj' => hname j (by omega) (by omega)

/-- No other flags have changed. -/
theorem of_same (h : completion ≠ .broken)
    (hsame : ∀ name, (∀ j, n < j → j ≤ m → name ≠ flagName j) → after name = before name) :
    FlagsKept flag n m completion before after := fun name hname => by
  rw [if_neg fun hb => h hb.1, hsame name hname]

theorem unchanged (h : completion ≠ .broken) : FlagsKept flag n m completion before before :=
  of_same h fun _ _ => rfl

/-- After any completion but by `break` the flags are as before, so what comes
next decides about them. -/
theorem trans {first : Completion} {flag' : Option String}
    (h : FlagsKept flag' n m first before middle) (hfirst : first ≠ .broken)
    (h' : FlagsKept flag n m completion middle after) :
    FlagsKept flag n m completion before after := fun name hname => by
  have hmiddle : middle name = before name := by rw [h name hname, if_neg fun hb => hfirst hb.1]
  rw [h' name hname, hmiddle]

end FlagsKept

/-! ### Simulation -/

section

variable {α ι σ : Type}

/-- Two configurations have the same state and the same trace. -/
structure Config.Agree (c d : Config α σ) : Prop where
  state : c.state = d.state
  trace : c.trace = d.trace

/-- Code that is lowered from number `n` to number `m` **runs like** statements
of the source, inside a loop with the given flag. -/
def Simulates (flag : Option String) (n m : Nat) (code source : Run α σ) : Prop :=
  ∀ c d : Config α σ, c.Agree d → ∃ completion c' d',
    code c = (completion, c') ∧ source d = (completion, d') ∧ c'.Agree d' ∧
      FlagsKept flag n m completion c.flags c'.flags

namespace Interpretation

variable (I : Interpretation α ι σ) {a : α} {flag : Option String} {n m : Nat}

/-- A question that does without the flags is answered in the same way. -/
theorem question_agree (ha : AsksWithoutFlags (I.ask a)) (last : Option ι) {c d : Config α σ}
    (h : c.Agree d) : ∃ answer c' d',
      I.question a last c = (answer, c') ∧ I.question a last d = (answer, d') ∧ c'.Agree d' ∧
        c'.flags = c.flags := by
  obtain ⟨g, hg⟩ := ha
  refine ⟨(g last c.state).1, ⟨(g last c.state).2, c.flags, c.trace ++ [.asked a]⟩,
    ⟨(g last c.state).2, d.flags, c.trace ++ [.asked a]⟩, ?_, ?_, ⟨rfl, rfl⟩, rfl⟩
  · simp only [question, hg]
  · simp only [question, hg, h.state, h.trace]

/-- An action that does without the flags does the same. -/
theorem act_simulates {completion : Completion} (ha : IgnoresFlags (I.perform a))
    (hc : completion ≠ .broken) :
    Simulates flag n m (fun c => (completion, I.act a c)) (fun d => (completion, I.act a d)) := by
  obtain ⟨g, hg⟩ := ha
  intro c d h
  refine ⟨completion, I.act a c, I.act a d, rfl, rfl, ⟨?_, ?_⟩, ?_⟩
  · simp only [act, hg, h.state]
  · simp only [act, hg, h.trace]
  · simpa only [act, hg] using .unchanged hc

end Interpretation

namespace Simulates

variable {flag : Option String} {n m : Nat} {code source code' source' : Run α σ}

theorem mono {n' m' : Nat} (h : Simulates flag n m code source) (hn : n' ≤ n) (hm : m ≤ m') :
    Simulates flag n' m' code source := by
  intro c d hcd
  obtain ⟨k, c', d', hcode, hsource, hagree, hflags⟩ := h c d hcd
  exact ⟨k, c', d', hcode, hsource, hagree, hflags.mono hn hm⟩

/-- Jump in any way but by `break`. -/
theorem jump {completion : Completion} (h : completion ≠ .broken) :
    Simulates flag n m (fun c : Config α σ => (completion, c)) (fun d => (completion, d)) :=
  fun c d hcd => ⟨completion, c, d, rfl, rfl, hcd, .unchanged h⟩

/-- One after the other. -/
theorem andThen (h : Simulates flag n m code source) (h' : Simulates flag n m code' source') :
    Simulates flag n m (fun c => Run.andThen (code c) code')
      (fun d => Run.andThen (source d) source') := by
  intro c d hcd
  obtain ⟨k, c', d', hcode, hsource, hagree, hflags⟩ := h c d hcd
  simp only [hcode, hsource]
  cases k with
  | normal =>
      obtain ⟨k', c'', d'', hcode', hsource', hagree', hflags'⟩ := h' c' d' hagree
      exact ⟨k', c'', d'', hcode', hsource', hagree', hflags.trans (by simp) hflags'⟩
  | _ => exact ⟨_, c', d', rfl, rfl, hagree, hflags⟩

/-- One or the other, by the answer to a question. -/
theorem branch {I : Interpretation α ι σ} {a : α} (ha : AsksWithoutFlags (I.ask a))
    (h : Simulates flag n m code source) (h' : Simulates flag n m code' source') :
    Simulates flag n m
      (fun c => match I.question a none c with
        | (some _, c) => code c
        | (none, c) => code' c)
      (fun d => match I.question a none d with
        | (some _, d) => source d
        | (none, d) => source' d) := by
  intro c d hcd
  obtain ⟨answer, c', d', hc, hd, hagree, hflags⟩ := I.question_agree ha none hcd
  simp only [hc, hd, ← hflags]
  cases answer with
  | none => exact h' c' d' hagree
  | some _ => exact h c' d' hagree

/-- Round after round. The flag is that of the loop itself. -/
theorem rounds {I : Interpretation α ι σ} {a : α} (ha : AsksWithoutFlags (I.ask a))
    (h : Simulates flag n m code source) (bound : Nat) (last : Option ι) :
    Simulates flag n m (Offside.rounds (I.question a) code bound last)
      (Offside.rounds (I.question a) source bound last) := by
  induction bound generalizing last with
  | zero => exact jump (by simp)
  | succ bound ih =>
      intro c d hcd
      obtain ⟨answer, c', d', hc, hd, hagree, hasked⟩ := I.question_agree ha last hcd
      simp only [Offside.rounds, hc, hd, ← hasked]
      cases answer with
      | none => exact ⟨.normal, c', d', rfl, rfl, hagree, .unchanged (by simp)⟩
      | some iterator =>
          obtain ⟨k, c'', d'', hcode, hsource, hbody, hflags⟩ := h c' d' hagree
          simp only [hcode, hsource]
          -- Only a normal end of the body and a `continue` lead to another round.
          cases k with
          | normal | continued =>
              obtain ⟨k', e, f, hrest, hrest', hagree', hflags'⟩ := ih (some iterator) c'' d'' hbody
              exact ⟨k', e, f, hrest, hrest', hagree', hflags.trans (by simp) hflags'⟩
          | broken | returned | cut | undeclared => exact ⟨_, c'', d'', rfl, rfl, hbody, hflags⟩

/-- A loop without a flag and without an `else` block. -/
theorem leaveLoop (h : Simulates none n m code source) :
    Simulates flag n m (fun c => Offside.leaveLoop (code c))
      (fun d => orElse (source d) fun d => (.normal, d)) := by
  intro c d hcd
  obtain ⟨k, c', d', hcode, hsource, hagree, hflags⟩ := h c d hcd
  have hsame : ∀ name, (∀ j, n < j → j ≤ m → name ≠ flagName j) → c'.flags name = c.flags name :=
    fun name hname => by rw [hflags name hname, if_neg fun hb => nomatch hb.2]
  simp only [hcode, hsource]
  cases k with
  | normal | broken => exact ⟨.normal, c', d', rfl, rfl, hagree, .of_same (by simp) hsame⟩
  | continued | returned | cut | undeclared =>
      exact ⟨_, c', d', rfl, rfl, hagree, .of_same (by simp) hsame⟩

/-- A loop without a flag that is never left by `break`: its `else` block simply
follows it. -/
theorem followedBy (h : Simulates none n m code source) (hno : ∀ d, (source d).1 ≠ .broken)
    (h' : Simulates flag n m code' source') :
    Simulates flag n m (fun c => Run.andThen (Offside.leaveLoop (code c)) code')
      (fun d => orElse (source d) source') := by
  have hsource : (fun d => orElse (source d) source') =
      fun d => Run.andThen (orElse (source d) fun d => (.normal, d)) source' := by
    funext d
    have hk := hno d
    rcases hd : source d with ⟨k, d'⟩
    rw [hd] at hk
    cases k with
    | broken => exact absurd rfl hk
    | _ => rfl
  rw [hsource]
  exact (leaveLoop h).andThen h'

/-- A loop with a flag: the flag tells, after the loop, whether the `else` block
runs. -/
theorem guarded (h : Simulates (some (flagName (n + 1))) (n + 1) m code source) (hnm : n < m)
    (h' : Simulates flag (n + 1) m code' source') :
    Simulates flag n m
      (fun c => Run.andThen (Offside.leaveLoop (code (c.setFlag (flagName (n + 1)) true))) fun c =>
        match c.flags (flagName (n + 1)) with
        | some true => code' c
        | some false => (.normal, c)
        | none => (.undeclared, c))
      (fun d => orElse (source d) source') := by
  intro c d hcd
  obtain ⟨k, c', d', hcode, hsource, hagree, hflags⟩ :=
    h (c.setFlag (flagName (n + 1)) true) d ⟨hcd.state, hcd.trace⟩
  -- The flag has a number of its own, so only a `break` of this loop has cleared it.
  have hown : c'.flags (flagName (n + 1)) = some (decide (k ≠ .broken)) := by
    rw [hflags _ fun j hj _ he => by have := flagName_injective he; omega]
    by_cases hk : k = .broken <;> simp [hk, Config.setFlag]
  have hothers : ∀ name, (∀ j, n < j → j ≤ m → name ≠ flagName j) →
      c'.flags name = c.flags name := by
    intro name hname
    have hne : name ≠ flagName (n + 1) := hname (n + 1) (by omega) hnm
    rw [hflags name fun j hj hj' => hname j (by omega) hj',
      if_neg fun hb => hne (Option.some.inj hb.2).symm]
    exact if_neg hne
  simp only [hcode, hsource]
  cases k with
  | normal =>
      obtain ⟨k', c'', d'', hcode', hsource', hagree', hflags'⟩ := h' c' d' hagree
      refine ⟨k', c'', d'', ?_, hsource', hagree', ?_⟩
      · simpa [Offside.leaveLoop, Run.andThen, hown] using hcode'
      · have hloop : FlagsKept flag n m .normal c.flags c'.flags := .of_same (by simp) hothers
        exact hloop.trans (by simp) (hflags'.mono (by omega) (by omega))
  | broken =>
      refine ⟨.normal, c', d', ?_, rfl, hagree, .of_same (by simp) hothers⟩
      simp [Offside.leaveLoop, Run.andThen, hown]
  | continued | returned | cut | undeclared =>
      exact ⟨_, c', d', rfl, rfl, hagree, .of_same (by simp) hothers⟩

end Simulates

end

/-! ### Statements without `break` -/

section

variable {α ι σ : Type} {I : Interpretation α ι σ} {bound : Nat}

/-- A loop is left by `break` only if its body is. -/
theorem rounds_ne_broken {question : Option ι → Config α σ → Option ι × Config α σ}
    {body : Run α σ} (h : ∀ c, (body c).1 ≠ .broken) (bound : Nat) (last : Option ι)
    (c : Config α σ) : (rounds question body bound last c).1 ≠ .broken := by
  induction bound generalizing last c with
  | zero => simp [rounds]
  | succ bound ih =>
      simp only [rounds]
      rcases question last c with ⟨answer, c'⟩
      cases answer with
      | none => simp
      | some iterator =>
          have hbody := h c'
          rcases hrun : body c' with ⟨k, c''⟩
          rw [hrun] at hbody
          simp only [hrun]
          cases k with
          | normal | continued => exact ih _ _
          | broken => exact absurd rfl hbody
          | returned | cut | undeclared => exact hbody

/-- A loop of the source completes by `break` only if its `else` block does. -/
theorem orElse_ne_broken {orelse : Run α σ} (h : ∀ c, (orelse c).1 ≠ .broken)
    (ended : Completion × Config α σ) : (orElse ended orelse).1 ≠ .broken := by
  rcases ended with ⟨k, c⟩
  cases k with
  | normal => exact h c
  | _ => simp [orElse]

namespace Stmt

mutual

theorem exec_ne_broken : (s : Stmt) → s.hasBreak = false → ∀ inClass c,
    (exec I bound inClass s c).1 ≠ .broken
  | .ifElse condition body alternate, h, inClass, c => by
      simp only [hasBreak, Bool.or_eq_false_iff] at h
      simp only [exec]
      split
      · exact execBlock_ne_broken body h.1 _ _
      · exact execAlternate_ne_broken alternate h.2 _
  | .whileLoop _ _ orelse, h, inClass, c => by
      simp only [hasBreak, Bool.or_eq_false_iff] at h
      exact orElse_ne_broken (execBlock_ne_broken orelse h.2 false) _
  | .forLoop _ _ _ orelse, h, inClass, c => by
      simp only [hasBreak, Bool.or_eq_false_iff] at h
      exact orElse_ne_broken (execBlock_ne_broken orelse h.2 false) _
  | .breakLoop, h, _, _ => by simp [hasBreak] at h
  | .assign .., _, _, _ | .augAssign .., _, _, _ | .expr _, _, _, _ | .returnValue _, _, _, _
  | .functionDef .., _, _, _ | .classDef .., _, _, _ | .importModule _, _, _, _
  | .continueLoop, _, _, _ | .pass, _, _, _ => by simp [exec]

theorem execAlternate_ne_broken : (a : Alternate) → alternateHasBreak a = false → ∀ c,
    (execAlternate I bound a c).1 ≠ .broken
  | .none, _, _ => by simp [execAlternate]
  | .elseIf condition body alternate, h, c => by
      simp only [alternateHasBreak, Bool.or_eq_false_iff] at h
      simp only [execAlternate]
      split
      · exact execBlock_ne_broken body h.1 _ _
      · exact execAlternate_ne_broken alternate h.2 _
  | .otherwise body, h, c => execBlock_ne_broken body h false c

theorem execBlock_ne_broken : (ss : List Stmt) → blockHasBreak ss = false → ∀ inClass c,
    (execBlock I bound inClass ss c).1 ≠ .broken
  | [], _, _, _ => by simp [execBlock]
  | s :: ss, h, inClass, c => by
      simp only [blockHasBreak, Bool.or_eq_false_iff] at h
      have hs := exec_ne_broken s h.1 inClass c
      simp only [execBlock]
      rcases hrun : exec I bound inClass s c with ⟨k, c'⟩
      rw [hrun] at hs
      cases k with
      | normal => exact execBlock_ne_broken ss h.2 _ _
      | _ => exact hs

end

end Stmt

/-! ### Lowering -/

theorem Run.andThen_normal (r : Completion × Config α σ) :
    Run.andThen r (fun c => (.normal, c)) = r := by
  rcases r with ⟨k, c⟩
  cases k <;> rfl

variable (I bound) in
theorem Target.Stmt.execBlock_singleton (s : Target.Stmt) :
    execBlock I bound [s] = exec I bound s :=
  funext fun c => Run.andThen_normal (exec I bound s c)

theorem Target.Stmt.execBlock_append (code code' : List Target.Stmt) :
    execBlock I bound (code ++ code') =
      fun c => Run.andThen (execBlock I bound code c) (execBlock I bound code') := by
  induction code with
  | nil => rfl
  | cons s code ih =>
      funext c
      simp only [List.cons_append, execBlock, ih]
      rcases exec I bound s c with ⟨k, c'⟩
      cases k <;> rfl

variable (I bound) in
/-- Code that is lowered from number `n` to number `m` takes the place of
statements of the source: it declares no flags but those in between, and runs
like the statements. -/
structure Faithful (flag : Option String) (n m : Nat) (code : List Target.Stmt)
    (source : Run α σ) : Prop where
  le : n ≤ m
  declared : ∀ name ∈ code.flatMap Target.Stmt.declared, ∃ j, n < j ∧ j ≤ m ∧ name = flagName j
  simulates : Simulates flag n m (Target.Stmt.execBlock I bound code) source

namespace Faithful

variable {flag : Option String} {n m : Nat} {code : List Target.Stmt} {source : Run α σ}

/-- The code as a block of its own. -/
theorem inBlock (h : Faithful I bound flag n m code source) :
    Simulates flag n m (Target.inBlock code (Target.Stmt.execBlock I bound code)) source := by
  intro c d hcd
  obtain ⟨k, c', d', hcode, hsource, hagree, hflags⟩ := h.simulates c d hcd
  refine ⟨k, { c' with flags := Target.leaveBlock code c.flags c'.flags }, d', ?_, hsource,
    ⟨hagree.state, hagree.trace⟩, fun name hname => ?_⟩
  · simp only [Target.inBlock, hcode]
  · -- A flag that is declared in the block has one of the numbers.
    have hundeclared : name ∉ code.flatMap Target.Stmt.declared := fun hmem => by
      obtain ⟨j, hj, hj', rfl⟩ := h.declared name hmem
      exact hname j hj hj' rfl
    rw [← hflags name hname]
    exact if_neg hundeclared

/-- Code that declares no flags. -/
theorem of_simulates (hle : n ≤ m) (hdeclared : code.flatMap Target.Stmt.declared = [])
    (h : Simulates flag n m (Target.Stmt.execBlock I bound code) source) :
    Faithful I bound flag n m code source :=
  ⟨hle, fun name hname => by simp [hdeclared] at hname, h⟩

/-- One statement that is one action. -/
theorem leaf {scope : Scope} {s : Stmt} {t : Target.Stmt} {k : Completion}
    (hnames : ∀ x ∈ s.names, ¬ IsFlagName x) (hs : s.isLeaf = true)
    (hrun : ((s.lower scope).run n).1 = [t]) (hle : n ≤ m) (hdeclared : t.declared = [])
    (hcode : t.exec I bound = fun c => (k, I.act (I.code t) c)) (hk : k ≠ .broken) :
    Faithful I bound flag n m [t] (fun d => (k, I.act (I.stmt scope.inClass s) d)) := by
  refine of_simulates hle (by simp [hdeclared]) ?_
  rw [Target.Stmt.execBlock_singleton, hcode, I.code_lower scope s n t hs hrun]
  exact I.act_simulates (I.stmt_local _ s hnames) hk

/-- One after the other. -/
theorem append {p : Nat} {code' : List Target.Stmt} {source' : Run α σ}
    (h : Faithful I bound flag n m code source) (h' : Faithful I bound flag m p code' source') :
    Faithful I bound flag n p (code ++ code') (fun d => Run.andThen (source d) source') where
  le := Nat.le_trans h.le h'.le
  declared name hname := by
    rw [List.flatMap_append, List.mem_append] at hname
    rcases hname with hname | hname
    · obtain ⟨j, hj, hj', rfl⟩ := h.declared name hname
      exact ⟨j, hj, Nat.le_trans hj' h'.le, rfl⟩
    · obtain ⟨j, hj, hj', rfl⟩ := h'.declared name hname
      exact ⟨j, Nat.lt_of_le_of_lt h.le hj, hj', rfl⟩
  simulates := by
    rw [Target.Stmt.execBlock_append]
    exact (h.simulates.mono (Nat.le_refl n) h'.le).andThen (h'.simulates.mono h.le (Nat.le_refl p))

end Faithful

/-- The lowering of a loop, whatever its header. -/
def lowerLoop (scope : Scope) (header : Target.LoopHeader) (body orelse : List Stmt) :
    FlagM (List Target.Stmt) := do
  let flag ← loopFlag body orelse
  let inner ← Stmt.lowerBlock (.loopBody flag) body
  let after ← Stmt.lowerBlock scope.branch orelse
  pure (completed flag header inner after)

/-- The code of a loop with a flag. -/
theorem Target.Stmt.execBlock_guarded (flag : String) (header : Target.LoopHeader)
    (body orelse : List Target.Stmt) :
    execBlock I bound (completed (some flag) header body orelse) = fun c =>
      Run.andThen (leaveLoop (rounds (I.question (headerAction I header))
        (inBlock body (execBlock I bound body)) bound none (c.setFlag flag true))) fun c =>
          match c.flags flag with
          | some true => inBlock orelse (execBlock I bound orelse) c
          | some false => (.normal, c)
          | none => (.undeclared, c) := by
  funext c
  simp only [completed, execBlock, exec, Run.andThen_normal]
  rfl

/-- A loop is faithful if its blocks are. -/
theorem lowerLoop_faithful {scope : Scope} (header : Target.LoopHeader) {a : α}
    {body orelse : List Stmt} (ha : AsksWithoutFlags (I.ask a))
    (hheader : Target.Stmt.headerAction I header = a)
    (hbody : ∀ flag n, Faithful I bound flag n ((Stmt.lowerBlock (.loopBody flag) body).run n).2
      ((Stmt.lowerBlock (.loopBody flag) body).run n).1 (Stmt.execBlock I bound false body))
    (horelse : ∀ n, Faithful I bound scope.flag n ((Stmt.lowerBlock scope.branch orelse).run n).2
      ((Stmt.lowerBlock scope.branch orelse).run n).1 (Stmt.execBlock I bound false orelse))
    (n : Nat) :
    Faithful I bound scope.flag n ((lowerLoop scope header body orelse).run n).2
      ((lowerLoop scope header body orelse).run n).1
      (fun d => orElse (rounds (I.question a) (Stmt.execBlock I bound false body) bound none d)
        (Stmt.execBlock I bound false orelse)) := by
  cases hflag : !orelse.isEmpty && Stmt.blockHasBreak body with
  | true =>
      -- The flag takes number `n + 1`, so those of the blocks start after it.
      have hrun : (lowerLoop scope header body orelse).run n =
          let inner := (Stmt.lowerBlock (.loopBody (some (flagName (n + 1)))) body).run (n + 1)
          let after := (Stmt.lowerBlock scope.branch orelse).run inner.2
          (completed (some (flagName (n + 1))) header inner.1 after.1, after.2) := by
        simp only [lowerLoop, loopFlag, hflag]
        rfl
      have hinner := hbody (some (flagName (n + 1))) (n + 1)
      have hafter := horelse
        ((Stmt.lowerBlock (.loopBody (some (flagName (n + 1)))) body).run (n + 1)).2
      have hle := Nat.le_trans hinner.le hafter.le
      rw [hrun]
      refine ⟨Nat.le_of_succ_le hle, fun name hname => ?_, ?_⟩
      · obtain rfl : name = flagName (n + 1) := by
          simpa [completed, Target.Stmt.declared] using hname
        exact ⟨n + 1, by omega, hle, rfl⟩
      · rw [Target.Stmt.execBlock_guarded, hheader]
        refine Simulates.guarded ?_ hle (hafter.inBlock.mono hinner.le (Nat.le_refl _))
        exact (hinner.inBlock.mono (Nat.le_refl _) hafter.le).rounds ha bound none
  | false =>
      have hrun : (lowerLoop scope header body orelse).run n =
          let inner := (Stmt.lowerBlock (.loopBody none) body).run n
          let after := (Stmt.lowerBlock scope.branch orelse).run inner.2
          (completed none header inner.1 after.1, after.2) := by
        simp only [lowerLoop, loopFlag, hflag]
        rfl
      have hinner := hbody none n
      have hafter := horelse ((Stmt.lowerBlock (.loopBody none) body).run n).2
      have hloop := (hinner.inBlock.mono (Nat.le_refl _) hafter.le).rounds ha bound none
      rw [hrun]
      refine ⟨Nat.le_trans hinner.le hafter.le, fun name hname => ?_, ?_⟩
      · obtain ⟨j, hj, hj', rfl⟩ := hafter.declared name hname
        exact ⟨j, Nat.lt_of_le_of_lt hinner.le hj, hj', rfl⟩
      · subst hheader
        rw [Bool.and_eq_false_iff] at hflag
        -- No flag is needed for one of two reasons.
        rcases hflag with hempty | hno
        · -- There is nothing to run after the loop.
          obtain rfl : orelse = [] := by simpa using hempty
          exact (Target.Stmt.execBlock_singleton I bound (.loop header _)).symm ▸ hloop.leaveLoop
        · -- No `break` leads past the `else` block, which so becomes the code after the loop.
          exact hloop.followedBy
            (rounds_ne_broken (Stmt.execBlock_ne_broken body hno false) bound none)
            (hafter.simulates.mono hinner.le (Nat.le_refl _))

/-- The rest of a conditional that is lowered from number `n` to number `m` runs
like that of the source. -/
theorem Simulates.elseBranch {flag : Option String} {n m p : Nat} {I : Interpretation α ι σ}
    {condition : Expr} {body : List Stmt} {alternate : Alternate} {inner : List Target.Stmt}
    {rest : Target.Alternate} (hnames : ∀ x ∈ condition.names, ¬ IsFlagName x)
    (hbody : Faithful I bound flag n m inner (Stmt.execBlock I bound false body))
    (hrest : m ≤ p ∧ Simulates flag m p (Target.Stmt.execAlternate I bound rest)
      (Stmt.execAlternate I bound alternate)) :
    Simulates flag n p
      (fun c => match I.question (I.codeCondition condition.lower) none c with
        | (some _, c) => Target.inBlock inner (Target.Stmt.execBlock I bound inner) c
        | (none, c) => Target.Stmt.execAlternate I bound rest c)
      (fun d => match I.question (I.condition condition) none d with
        | (some _, d) => Stmt.execBlock I bound false body d
        | (none, d) => Stmt.execAlternate I bound alternate d) := by
  rw [I.codeCondition_lower]
  exact Simulates.branch (I.condition_local condition hnames)
    (hbody.inBlock.mono (Nat.le_refl n) hrest.1) (hrest.2.mono hbody.le (Nat.le_refl p))

namespace Stmt

mutual

theorem lower_faithful (I : Interpretation α ι σ) (bound : Nat) : (s : Stmt) →
    s.hasBadRange = false → (∀ x ∈ s.names, ¬ IsFlagName x) → ∀ (scope : Scope) (n : Nat),
      Faithful I bound scope.flag n ((s.lower scope).run n).2 ((s.lower scope).run n).1
        (s.exec I bound scope.inClass)
  | .assign target value, _, hnames, scope, n => by
      have hleaf : (lowerAssign scope target value).declared = [] ∧
          (lowerAssign scope target value).exec I bound = fun c =>
            (.normal, I.act (I.code (lowerAssign scope target value)) c) := by
        unfold lowerAssign
        split <;> exact ⟨rfl, rfl⟩
      exact .leaf hnames rfl rfl (Nat.le_refl n) hleaf.1 hleaf.2 (by simp)
  | .augAssign .., _, hnames, _, n | .expr _, _, hnames, _, n | .importModule _, _, hnames, _, n
  | .pass, _, hnames, _, n | .returnValue _, _, hnames, _, n =>
      .leaf hnames rfl rfl (Nat.le_refl n) rfl rfl (by simp)
  | .functionDef name params body, hrange, hnames, scope, n => by
      -- A definition is one action, but the flags in its body have been counted.
      have hinner := hnames
      simp only [names, List.forall_mem_cons, List.forall_mem_append] at hinner
      have hbody := lowerBlock_faithful I bound body hrange hinner.2.2 Scope.top n
      refine .leaf hnames rfl rfl hbody.le ?_ ?_ (by simp)
      · cases scope.inClass <;> rfl
      · cases scope.inClass <;> rfl
  | .classDef name body, hrange, hnames, scope, n => by
      have hinner := hnames
      simp only [names, List.forall_mem_cons] at hinner
      have hbody := lowerBlock_faithful I bound body hrange hinner.2 Scope.classBody n
      exact .leaf hnames rfl rfl hbody.le rfl rfl (by simp)
  | .ifElse condition body alternate, hrange, hnames, scope, n => by
      simp only [hasBadRange, Bool.or_eq_false_iff] at hrange
      simp only [names, List.forall_mem_append] at hnames
      have hbody := lowerBlock_faithful I bound body hrange.1 hnames.1.2 scope.branch n
      have hrest := lowerAlternate_simulates I bound alternate hrange.2 hnames.2 scope
        ((lowerBlock scope.branch body).run n).2
      refine .of_simulates (Nat.le_trans hbody.le hrest.1) rfl ?_
      refine (Target.Stmt.execBlock_singleton I bound (.ifElse condition.lower _ _)).symm ▸ ?_
      exact Simulates.elseBranch hnames.1.1 hbody hrest
  | .whileLoop condition body orelse, hrange, hnames, scope, n => by
      simp only [hasBadRange, Bool.or_eq_false_iff] at hrange
      simp only [names, List.forall_mem_append] at hnames
      exact lowerLoop_faithful (.whileTrue condition.lower)
        (I.condition_local condition hnames.1.1) (I.codeCondition_lower condition)
        (fun flag => lowerBlock_faithful I bound body hrange.1 hnames.1.2 (.loopBody flag))
        (lowerBlock_faithful I bound orelse hrange.2 hnames.2 scope.branch) n
  | .forLoop target iter body orelse, hrange, hnames, scope, n => by
      simp only [hasBadRange, Bool.or_eq_false_iff] at hrange
      simp only [names, List.forall_mem_append] at hnames
      obtain ⟨header, hheader⟩ := loopHeader_ok target hrange.1.1
      have hlower : lower scope (.forLoop target iter body orelse) =
          lowerLoop scope header body orelse := by
        simp only [lower, hheader, lowerLoop]
      rw [hlower]
      exact lowerLoop_faithful header
        (I.header_local target iter (List.forall_mem_append.2 hnames.1.1))
        (headerAction_loopHeader I hheader)
        (fun flag => lowerBlock_faithful I bound body hrange.1.2 hnames.1.2 (.loopBody flag))
        (lowerBlock_faithful I bound orelse hrange.2 hnames.2 scope.branch) n
  | .breakLoop, _, _, ⟨_, none⟩, n =>
      .of_simulates (Nat.le_refl n) rfl fun c d hcd =>
        ⟨.broken, c, d, rfl, rfl, hcd, fun name _ => by simp⟩
  | .breakLoop, _, _, ⟨_, some flag⟩, n =>
      .of_simulates (Nat.le_refl n) rfl fun c d hcd =>
        ⟨.broken, c.setFlag flag false, d, rfl, rfl, ⟨hcd.state, hcd.trace⟩, fun name _ => by
          simp [Config.setFlag, eq_comm]⟩
  | .continueLoop, _, _, scope, n =>
      .of_simulates (Nat.le_refl n) rfl (.jump (by simp))

theorem lowerAlternate_simulates (I : Interpretation α ι σ) (bound : Nat) : (a : Alternate) →
    alternateHasBadRange a = false → (∀ x ∈ alternateNames a, ¬ IsFlagName x) →
    ∀ (scope : Scope) (n : Nat), n ≤ ((lowerAlternate scope.branch a).run n).2 ∧
      Simulates scope.flag n ((lowerAlternate scope.branch a).run n).2
        (Target.Stmt.execAlternate I bound ((lowerAlternate scope.branch a).run n).1)
        (execAlternate I bound a)
  | .none, _, _, scope, n => ⟨Nat.le_refl n, Simulates.jump (by simp)⟩
  | .elseIf condition body alternate, hrange, hnames, scope, n => by
      simp only [alternateHasBadRange, Bool.or_eq_false_iff] at hrange
      simp only [alternateNames, List.forall_mem_append] at hnames
      have hbody := lowerBlock_faithful I bound body hrange.1 hnames.1.2 scope.branch n
      have hrest := lowerAlternate_simulates I bound alternate hrange.2 hnames.2 scope
        ((lowerBlock scope.branch body).run n).2
      exact ⟨Nat.le_trans hbody.le hrest.1, Simulates.elseBranch hnames.1.1 hbody hrest⟩
  | .otherwise body, hrange, hnames, scope, n => by
      have hbody := lowerBlock_faithful I bound body hrange hnames scope.branch n
      refine ⟨hbody.le, ?_⟩
      cases body with
      | nil => exact Simulates.jump (by simp)
      | cons s ss => exact hbody.inBlock

theorem lowerBlock_faithful (I : Interpretation α ι σ) (bound : Nat) : (ss : List Stmt) →
    blockHasBadRange ss = false → (∀ x ∈ blockNames ss, ¬ IsFlagName x) →
    ∀ (scope : Scope) (n : Nat),
      Faithful I bound scope.flag n ((lowerBlock scope ss).run n).2 ((lowerBlock scope ss).run n).1
        (execBlock I bound scope.inClass ss)
  | [], _, _, scope, n =>
      .of_simulates (Nat.le_refl n) rfl (.jump (by simp))
  | s :: ss, hrange, hnames, scope, n => by
      simp only [blockHasBadRange, Bool.or_eq_false_iff] at hrange
      simp only [blockNames, List.forall_mem_append] at hnames
      have hfirst := lower_faithful I bound s hrange.1 hnames.1 scope n
      exact hfirst.append (lowerBlock_faithful I bound ss hrange.2 hnames.2 scope _)

end

end Stmt

end

/-! ### The text of statements -/

/-- A loop in a loop, both with `else` blocks. The inner `else` block breaks out
of the outer loop, and the inner `break` does not. -/
def nestedLoops : List Stmt :=
  [.whileLoop (.ident "a")
    [.forLoop (.ident "x") (.ident "b") [.ifElse (.ident "c") [.breakLoop] .none] [.breakLoop],
      .expr (.ident "d")]
    [.expr (.ident "e")]]

end Offside
