import Offside.Lowering.Stmt
import Offside.Proofs.Grouping
import Offside.Proofs.JavaScript.Arithmetic

/-!
# Offside.Proofs.Steps

By how much a counting loop changes its variable. The header takes the text of the
step, removes the blanks, and turns a minus at its start into `-=`. If the step is
a sum or product of integers, **the variable changes by the value of the step if and
only if the first minus covers the whole step, no two equal signs meet and no name is
reserved** (`Expr.IsParsed.changes_loopHeader_iff`): `-2 + 1` counts down by `2+1`.
-/

namespace Offside

namespace Expr

/-! ### Values of steps -/

/-- The value of a sum or product of integers, for given values of the variables. -/
def value? (env : String → Int) : Expr → Option Int
  | .ident name => some (env name)
  | .literal (.number value) => value.toInt?
  | .binary left op right _ =>
    op.counterpart.onIntegers? <*> value? env left <*> value? env right
  | .unary op operand => op.counterpart.onIntegers? <*> value? env operand
  | .group inner => value? env inner
  | _ => none

/-- A sum or product of integers has a value, for given values of the variables. -/
inductive Evaluates (env : String → Int) : Expr → Int → Prop
  | ident (name : String) : Evaluates env (.ident name) (env name)
  | number {value : Binary64} {v : Int} (h : value.toInt? = some v) :
    Evaluates env (.literal (.number value)) v
  | binary {left right : Expr} {op : BinaryOp} {line : Nat} {f : Int → Int → Int} {a b : Int}
    (hop : op.counterpart.onIntegers? = some f) (hleft : Evaluates env left a)
    (hright : Evaluates env right b) : Evaluates env (.binary left op right line) (f a b)
  | unary {operand : Expr} {op : UnaryOp} {f : Int → Int} {a : Int}
    (hop : op.counterpart.onIntegers? = some f) (h : Evaluates env operand a) :
    Evaluates env (.unary op operand) (f a)
  | group {inner : Expr} {v : Int} (h : Evaluates env inner v) : Evaluates env (.group inner) v

variable {env : String → Int} {e : Expr} {v : Int}

/-- An expression that has a value is made of integers, names and operations on them. -/
theorem evaluates_of_value? : (e : Expr) → {v : Int} → e.value? env = some v → e.Evaluates env v
  | .ident name, _, h => by
      cases h
      exact .ident name
  | .literal (.number value), _, h => .number h
  | .binary left op right _, _, h => by
      obtain ⟨g, b, hg, hright, rfl⟩ := seq_eq_some_iff.1 h
      obtain ⟨f, a, hop, hleft, rfl⟩ := seq_eq_some_iff.1 hg
      exact .binary hop (evaluates_of_value? left hleft) (evaluates_of_value? right hright)
  | .unary op operand, _, h => by
      obtain ⟨f, a, hop, hoperand, rfl⟩ := seq_eq_some_iff.1 h
      exact .unary hop (evaluates_of_value? operand hoperand)
  | .group inner, _, h => .group (evaluates_of_value? inner h)

/-! ### Steps in JavaScript

The code of a step is read back and evaluated. Without its blanks it is read as
before, if no name in it is a reserved word.
-/

/-- Operations on integers are lowered to operations on integers, without parentheses. -/
theorem lower_binary {left right : Expr} {op : BinaryOp} {line : Nat} {f : Int → Int → Int}
    (h : op.counterpart.onIntegers? = some f) :
    (binary left op right line).lower = .binary left.lower op.counterpart right.lower := by
  have hpow : op ≠ .pow := by
    rintro rfl
    cases h
  rw [lower, lower_eq_counterpart]
  simp [hpow]

theorem lower_unary {operand : Expr} {op : UnaryOp} {f : Int → Int}
    (h : op.counterpart.onIntegers? = some f) :
    (unary op operand).lower = lowerSign op.counterpart operand.lower := by
  cases op with
  | neg | pos => rfl
  | not => cases h

theorem isArithmetic_lower (h : e.Evaluates env v) : e.lower.isArithmetic = true := by
  induction h with
  | ident | number => rfl
  | binary hop _ _ ihleft ihright =>
      rw [lower_binary hop, Target.Expr.isArithmetic, hop, ihleft, ihright]
      rfl
  | unary hop _ ih =>
      rw [lower_unary hop, lowerSign, Target.Expr.isArithmetic, hop]
      split <;> exact ih
  | group _ ih => exact ih

/-- The code of such an expression has a spelling for each leaf. -/
theorem isSpelled_lower (h : e.Evaluates env v) (hlexical : e.IsLexical) : e.lower.IsSpelled := by
  induction h with
  | ident name => exact isName_of_isWord hlexical
  | @number value v h =>
      cases value with
      | finite negative m k =>
          obtain ⟨rfl, hcanonical⟩ := hlexical
          exact ⟨m, k, rfl, hcanonical⟩
      | infinite | nan => cases h
  | binary hop _ _ ihleft ihright =>
      rw [lower_binary hop]
      exact ⟨ihleft hlexical.1, ihright hlexical.2⟩
  | unary hop _ ih =>
      rw [lower_unary hop, lowerSign]
      refine ⟨.inr ?_, (Target.Expr.isSpelled_paren_if _ _).2 (ih hlexical)⟩
      split
      · simp [Target.Expr.startsWithSign, Target.Expr.render]
      · rename_i hsign
        exact Bool.eq_false_iff.2 hsign
  | group _ ih => exact ih hlexical

/-- What binds strongly in the source binds strongly in the code. -/
theorem tier_lower_le {m : Nat} (h : e.hasPower m = true) : e.lower.tier ≤ greatestTier m := by
  by_cases hbinary : e.isBinary = true
  · cases e with
    | binary left op right line =>
        exact Nat.le_trans op.tier_lower_le (greatestTier_anti (of_decide_eq_true h))
    | _ => cases hbinary
  · rw [Target.Expr.tier_of_isBinary (by rw [isBinary_lower, Bool.eq_false_iff.2 hbinary])]
    exact Nat.zero_le _

theorem subset_lexemes_lowerSign (op : Target.UnaryOp) (t : Target.Expr) :
    t.lexemes ⊆ (lowerSign op t).lexemes := by
  intro x hx
  rw [lowerSign, Target.Expr.lexemes]
  split
  · exact List.mem_cons_of_mem _ (List.mem_cons_of_mem _ (List.mem_append_left _ hx))
  · exact List.mem_cons_of_mem _ hx

open Target.Expr (HaveFreeNames)

/-- The code of such an expression is grouped as the expression is. -/
theorem isOrdered_lower (h : e.Evaluates env v) (hgrouped : e.isGrouped = true)
    (hfree : HaveFreeNames e.lower.lexemes) : e.lower.isOrdered = true := by
  induction h with
  | ident name =>
      rw [lower, Target.Expr.isOrdered, hfree name List.mem_cons_self]
      rfl
  | number => rfl
  | @binary left right op line f a b hop _ _ ihleft ihright =>
      simp only [isGrouped, Bool.and_eq_true] at hgrouped
      have hpow : op ≠ .pow := by
        rintro rfl
        cases hop
      have hrelational : op.isRelational = false := by
        cases op with
        | lt | gt | ltEq | gtEq => cases hop
        | _ => rfl
      have hleft : left.lower.tier ≤ op.counterpart.tier := by
        rw [← lower_eq_counterpart, tier_lower_le_iff hgrouped.1.1, hrelational]
        rfl
      have hright : right.lower.tier < op.counterpart.tier := by
        rw [← lower_eq_counterpart]
        exact Nat.lt_of_le_of_lt (tier_lower_le hgrouped.1.2) (BinaryOp.greatestTier_lt hpow)
      rw [lower_binary hop] at hfree ⊢
      refine (Target.Expr.isOrdered_binary_iff (Option.isSome_of_eq_some hop)).2
        ⟨⟨hleft, hright⟩, ihleft hgrouped.2.1 ?_, ihright hgrouped.2.2 ?_⟩
      · exact hfree.mono (List.subset_append_left _ _)
      · exact hfree.mono fun x hx => List.mem_append_right _ (List.mem_cons_of_mem _ hx)
  | @unary operand op f a hop _ ih =>
      obtain ⟨hbinary, hoperand⟩ := Bool.and_eq_true_iff.1 hgrouped
      rw [lower_unary hop] at hfree ⊢
      have hordered := ih hoperand (hfree.mono (subset_lexemes_lowerSign _ _))
      have hbinary' : operand.lower.isBinary = false := by
        rw [isBinary_lower]
        simpa using hbinary
      rw [lowerSign, Target.Expr.isOrdered, Target.Expr.isBinary_paren_if _ hbinary',
        Target.Expr.isOrdered_paren_if, hordered]
      rfl
  | group _ ih =>
      exact ih hgrouped (hfree.mono fun x hx =>
        List.mem_cons_of_mem _ (List.mem_append_left _ hx))

/-- **The code of an expression has its value.** -/
theorem value?_lower (h : e.Evaluates env v) (hfree : HaveFreeNames e.lower.lexemes) :
    e.lower.value? env = some v := by
  induction h with
  | ident name => rw [lower, Target.Expr.value?, hfree name List.mem_cons_self, if_neg (by decide)]
  | number h => exact h
  | binary hop _ _ ihleft ihright =>
      rw [lower_binary hop] at hfree ⊢
      refine Target.Expr.value?_binary_eq_some_iff.2 ⟨_, _, _, hop, ihleft ?_, ihright ?_, rfl⟩
      · exact hfree.mono (List.subset_append_left _ _)
      · exact hfree.mono fun x hx => List.mem_append_right _ (List.mem_cons_of_mem _ hx)
  | unary hop _ ih =>
      rw [lower_unary hop] at hfree ⊢
      have hoperand := ih (hfree.mono (subset_lexemes_lowerSign _ _))
      refine Target.Expr.value?_unary_eq_some_iff.2 ⟨_, _, hop, ?_, rfl⟩
      split <;> exact hoperand
  | group _ ih =>
      exact ih (hfree.mono fun x hx => List.mem_cons_of_mem _ (List.mem_append_left _ hx))

end Expr

/-! ### Update clauses -/

/-- The text of an update clause changes the variable with the given text by `v`. -/
def Target.Changes (env : String → Int) (target clause : String) (v : Int) : Prop :=
  ∃ amount w, (Expr.read amount).bind (Expr.value? env) = some w ∧
    (clause = target ++ " += " ++ amount ∧ v = w ∨ clause = target ++ " -= " ++ amount ∧ v = -w)

/-- An update clause changes the target by the value of its amount, with the sign of
its operator. -/
theorem Target.changes_iff (env : String → Int) (target amount : String) (descending : Bool)
    (v : Int) :
    Changes env target (target ++ (if descending then " -= " else " += ") ++ amount) v ↔
      (Expr.read amount).bind (Expr.value? env) = some (if descending then -v else v) := by
  have hclause {sign sign' amount' : String}
      (h : target ++ sign ++ amount = target ++ sign' ++ amount') :
      sign.toList ++ amount.toList = sign'.toList ++ amount'.toList := by
    rw [String.append_assoc, String.append_assoc, String.append_right_inj] at h
    rw [← String.toList_append, h, String.toList_append]
  constructor
  · rintro ⟨amount', w, hread, ⟨h, rfl⟩ | ⟨h, rfl⟩⟩
    · cases descending with
      | true => exact absurd (hclause h) (by simp)
      | false =>
          have hamount : amount = amount' := String.toList_inj.1 (by simpa using hclause h)
          rw [hamount, hread]
          rfl
    · cases descending with
      | true =>
          have hamount : amount = amount' := String.toList_inj.1 (by simpa using hclause h)
          rw [hamount, hread, if_pos rfl, Int.neg_neg]
      | false => exact absurd (hclause h) (by simp)
  · intro hread
    cases descending with
    | true => exact ⟨amount, -v, hread, .inr ⟨rfl, (Int.neg_neg v).symm⟩⟩
    | false => exact ⟨amount, v, hread, .inl ⟨rfl, rfl⟩⟩

theorem Target.LoopHeader.render_counted (target start stop : Expr) (descending : Bool)
    (amount : String) :
    (counted target start stop descending amount).render =
      "for (var " ++ target.render ++ " = " ++ start.render ++ "; " ++ target.render ++
        (if descending then " > " else " < ") ++ stop.render ++ "; " ++
        (target.render ++ (if descending then " -= " else " += ") ++ amount) ++ ")" := by
  have hgroup (a b c d e : String) : a ++ b ++ c ++ d ++ e = a ++ (b ++ c ++ d) ++ e := by
    simp only [String.append_assoc]
  exact hgroup _ _ _ _ _

open Target (Changes)
open Target.Expr (HaveFreeNames)

/-- A step whose code starts with a minus counts down, by the code without it. -/
theorem countedHeader_of_minus (target start stop : Target.Expr) {t : Target.Expr}
    (h : t.StartsWithMinus)
    (harithmetic : t.isArithmetic = true) (hspelled : t.IsSpelled) :
    countedHeader target start stop t =
      .counted target start stop true
        (String.ofList (t.dropSign.lexemes.flatMap Target.Lexeme.code)) := by
  have htext : (Text.withoutBlanks t.render).toList =
      '-' :: t.dropSign.lexemes.flatMap Target.Lexeme.code := by
    rw [Text.withoutBlanks, String.toList_ofList, t.filter_render harithmetic hspelled,
      Target.Expr.lexemes_dropSign h]
    rfl
  rw [countedHeader, htext]
  rfl

/-- Any other step counts up, by its code. -/
theorem countedHeader_of_not_minus (target start stop : Target.Expr) {t : Target.Expr}
    (h : t.lexemes.head? ≠ some (.punctuator "-"))
    (harithmetic : t.isArithmetic = true) (hspelled : t.IsSpelled) :
    countedHeader target start stop t =
      .counted target start stop false
        (String.ofList (t.lexemes.flatMap Target.Lexeme.code)) := by
  have hterm := t.isTerm_lexemes harithmetic hspelled
  obtain ⟨x, xs, hlexemes, hx⟩ := hterm.starts
  have hends : Target.Lexeme.EndsBefore (.punctuator "-") x := by
    refine (Target.Lexeme.adjoins_term hx (hterm.arithmetic x (by simp [hlexemes]))
      (by decide)).resolve_right fun hsigns => h ?_
    rw [hlexemes, ← of_decide_eq_true (Bool.and_eq_true_iff.1 hsigns).1]
    rfl
  obtain ⟨c, hcode, hc⟩ := hends
  obtain ⟨cs, hcode⟩ := List.head?_eq_some_iff.1 hcode
  have htext : (Text.withoutBlanks t.render).toList =
      t.lexemes.flatMap Target.Lexeme.code := by
    rw [Text.withoutBlanks, String.toList_ofList, t.filter_render harithmetic hspelled]
  rw [countedHeader, htext]
  split
  · rename_i amount hminus
    rw [hlexemes, List.flatMap_cons, hcode] at hminus
    rw [(List.cons.inj hminus).1] at hc
    exact absurd hc (by decide)
  · rfl

namespace Expr

/-- **A loop advances by its step if and only if the first minus of the step covers
all of it.** A step that is read from a source and has an integer value is written
without blanks behind `+=`, or behind `-=` in place of its first minus. The clause
changes the variable by the value of the step exactly if no name in the step is
reserved, no two equal signs meet, and, behind `-=`, the first term of the step has
the value of all of it. -/
theorem IsParsed.changes_loopHeader_iff {step : Expr} (h : step.IsParsed)
    (target start stop : Expr) {env : String → Int} {v : Int}
    (hvalue : step.value? env = some v) :
    ∃ comparison ∈ [" < ", " > "], ∃ clause : String,
      (loopHeader target (.call (.ident "range") [start, stop, step])).map (·.render) =
        .ok ("for (var " ++ target.toCode ++ " = " ++ start.toCode ++ "; " ++ target.toCode ++
          comparison ++ stop.toCode ++ "; " ++ clause ++ ")") ∧
      (Changes env target.toCode clause v ↔
        HaveFreeNames step.lower.lexemes ∧
        Target.Lexeme.signsApart step.lower.lexemes = true ∧
        (step.lower.lexemes.head? = some (.punctuator "-") →
          step.lower.firstTerm.value? env = some v)) := by
  have hevaluates := evaluates_of_value? step hvalue
  have harithmetic := isArithmetic_lower hevaluates
  have hspelled := isSpelled_lower hevaluates h.isLexical
  have hterm := step.lower.isTerm_lexemes harithmetic hspelled
  have hordered := isOrdered_lower hevaluates h.isGrouped
  have hlower := value?_lower hevaluates
  have hheader : loopHeader target (.call (.ident "range") [start, stop, step]) =
      .ok (countedHeader target.lower start.lower stop.lower step.lower) := rfl
  rw [hheader]
  by_cases hhead : step.lower.lexemes.head? = some (.punctuator "-")
  · have hminus := step.lower.startsWithMinus_of_head harithmetic hspelled hhead
    have hread := Target.Expr.value?_read_dropSign hminus harithmetic hspelled hordered hlower
    rw [countedHeader_of_minus _ _ _ hminus harithmetic hspelled]
    refine ⟨" > ", by decide, _, congrArg Except.ok (Target.LoopHeader.render_counted ..), ?_⟩
    exact (Target.changes_iff ..).trans (hread.trans (by simp only [hhead, forall_const]))
  · have hread := Target.Expr.value?_read_code env v hterm.arithmetic hterm.adjoins hordered
    rw [countedHeader_of_not_minus _ _ _ hhead harithmetic hspelled]
    refine ⟨" < ", by decide, _, congrArg Except.ok (Target.LoopHeader.render_counted ..), ?_⟩
    refine (Target.changes_iff ..).trans (hread.trans ?_)
    constructor
    · rintro ⟨hsigns, hvalue⟩
      exact ⟨Target.Expr.haveFreeNames_of_value? hvalue, hsigns, fun h => absurd h hhead⟩
    · rintro ⟨hfree, hsigns, -⟩
      exact ⟨hsigns, hlower hfree⟩

/-- A whole number in a source. -/
def ofNat (n : Nat) : Expr := .literal (.number (Binary64.ofDecimal false ⟨n, 0⟩))

/-- The step `-a * (b + -2)`, whose first minus covers a product. -/
def signedProduct : Expr :=
  .binary (.unary .neg (.ident "a")) .mul
    (.group (.binary (.ident "b") .add (.unary .neg (ofNat 2)) 1)) 1

/-- The variable `a` is 3, and all others are 5. -/
def threeAndFive (name : String) : Int := if name = "a" then 3 else 5

theorem changes_signedProduct :
    signedProduct.IsParsed ∧ signedProduct.value? threeAndFive = some (-9) ∧
    ∃ comparison ∈ [" < ", " > "], ∃ clause : String,
      (loopHeader (.ident "i") (.call (.ident "range") [.ident "m", .ident "n", signedProduct])).map
          (·.render) =
        .ok ("for (var " ++ "i" ++ " = " ++ "m" ++ "; " ++ "i" ++ comparison ++ "n" ++ "; " ++
          clause ++ ")") ∧
      Changes threeAndFive "i" clause (-9) := by
  have hparsed : signedProduct.IsParsed :=
    isParsed_of_expression "-a * (b + -2)" (by decide +kernel)
  have hvalue : signedProduct.value? threeAndFive = some (-9) := by decide +kernel
  have hlower : signedProduct.lower.value? threeAndFive = some (-9) := by decide +kernel
  obtain ⟨comparison, hcomparison, clause, hheader, hchanges⟩ :=
    hparsed.changes_loopHeader_iff (.ident "i") (.ident "m") (.ident "n") hvalue
  refine ⟨hparsed, hvalue, comparison, hcomparison, clause, hheader, hchanges.2 ⟨?_, ?_, ?_⟩⟩
  · exact Target.Expr.haveFreeNames_of_value? hlower
  · decide +kernel
  · exact fun _ => hlower

/-- The step `-2 + 1`, whose first minus covers the first number only. -/
def negativeSum : Expr := .binary (.unary .neg (ofNat 2)) .add (ofNat 1) 1

/-- A loop that is to count down by one counts down by three. -/
theorem changes_negativeSum :
    negativeSum.IsParsed ∧ negativeSum.value? threeAndFive = some (-1) ∧
    (loopHeader (.ident "i") (.call (.ident "range") [ofNat 10, ofNat 0, negativeSum])).map
        (·.render) =
      .ok "for (var i = 10; i > 0; i -= 2+1)" ∧
    Changes threeAndFive "i" "i -= 2+1" (-3) ∧ ¬ Changes threeAndFive "i" "i -= 2+1" (-1) := by
  have hparsed : negativeSum.IsParsed :=
    isParsed_of_expression "-2 + 1" (by decide +kernel)
  have hread : (Target.Expr.read "2+1").bind (Target.Expr.value? threeAndFive) = some 3 := by
    decide +kernel
  have hchanges (v : Int) : Changes threeAndFive "i" "i -= 2+1" v ↔ some 3 = some (-v) := by
    rw [← hread]
    exact Target.changes_iff threeAndFive "i" "2+1" true v
  refine ⟨hparsed, by decide +kernel, congrArg Except.ok (by decide +kernel), ?_, ?_⟩
  · exact (hchanges _).2 rfl
  · rw [hchanges]
    decide

end Expr

end Offside
