import Offside.Proofs.JavaScript.Rendering

/-!
# Offside.Proofs.JavaScript.Regrouping

The text of a tree has no parentheses but those of the tree, so when it is read
the operators take their operands by their tiers, whatever tree it was written
from. `Expr.regroup` is **the tree that is read** (`Expr.read_render_regroup`).
Two trees group their operators alike if they are equal without parentheses
(`Expr.skeleton`).
-/

namespace Offside.Target.Expr

/-! ### Trees that are read -/

/-- An operation as it is read. Of a left operand that is not in parentheses, an
operator takes the part on the right that looser operators leave to it. -/
def combine (op : BinaryOp) (right : Expr) : Expr → Expr
  | .binary first outer second =>
    if op.tier < outer.tier then .binary first outer (combine op right second)
    else .binary (.binary first outer second) op right
  | left => .binary left op right

mutual

/-- The tree that the text of an expression is read as. -/
def regroup : Expr → Expr
  | .name text => if text = "console.log" then .member (.name "console") "log" else .name text
  | .number value => .number value
  | .string value => .string value
  | .boolean value => .boolean value
  | .null => .null
  | .template quasis substitutions => .template quasis (regroupAll substitutions)
  | .binary left op right => combine op (regroup right) (regroup left)
  | .unary op operand => .unary op (regroup operand)
  | .member value field => .member (regroup value) field
  | .call callee args => .call (regroup callee) (regroupAll args)
  | .index target position => .index (regroup target) (regroup position)
  | .array items => .array (regroupAll items)
  | .paren inner => .paren (regroup inner)

/-- The trees that the texts of expressions are read as. -/
def regroupAll : List Expr → List Expr
  | [] => []
  | e :: es => regroup e :: regroupAll es

end

mutual

/-- An expression without its parentheses, as a tree. -/
def skeleton : Expr → Expr
  | .name text => .name text
  | .number value => .number value
  | .string value => .string value
  | .boolean value => .boolean value
  | .null => .null
  | .template quasis substitutions => .template quasis (skeletonAll substitutions)
  | .binary left op right => .binary (skeleton left) op (skeleton right)
  | .unary op operand => .unary op (skeleton operand)
  | .member value field => .member (skeleton value) field
  | .call callee args => .call (skeleton callee) (skeletonAll args)
  | .index target position => .index (skeleton target) (skeleton position)
  | .array items => .array (skeletonAll items)
  | .paren inner => skeleton inner

/-- Expressions without their parentheses. -/
def skeletonAll : List Expr → List Expr
  | [] => []
  | e :: es => skeleton e :: skeletonAll es

end

/-! ### Operations

An operator takes the whole tree on its left if that binds strongly enough, and
otherwise goes down its right edge to the last operand that does.
-/

variable {op : BinaryOp} {left right : Expr}

theorem tier_of_isBinary (h : left.isBinary = false) : left.tier = 0 := by
  cases left with
  | binary => cases h
  | _ => rfl

theorem tier_of_isLeftHandSide (h : left.isLeftHandSide = true) : left.tier = 0 := by
  cases left with
  | binary => cases h
  | _ => rfl

/-- Combining gives an operation, wherever in the tree the new operator ends up. -/
theorem isBinary_combine : (combine op right left).isBinary = true := by
  fun_cases combine op right left <;> rfl

theorem isLeftHandSide_combine : (combine op right left).isLeftHandSide = false := by
  fun_cases combine op right left <;> rfl

/-- An operator takes the whole left operand if nothing in it is looser. -/
theorem combine_of_le (h : left.tier ≤ op.tier) :
    combine op right left = .binary left op right := by
  cases left with
  | binary first outer second =>
      have houter : ¬ op.tier < outer.tier := Nat.not_lt.2 h
      rw [combine, if_neg houter]
  | _ => rfl

/-- The tier of the result is the weaker of the two. -/
theorem tier_combine : (combine op right left).tier = max left.tier op.tier := by
  by_cases h : left.tier ≤ op.tier
  · rw [combine_of_le h]
    exact (Nat.max_eq_right h).symm
  · cases left with
    | binary first outer second =>
        have houter : op.tier < outer.tier := Nat.not_le.1 h
        rw [combine, if_pos houter]
        exact (Nat.max_eq_left (Nat.le_of_lt houter)).symm
    | _ => exact absurd (Nat.zero_le _) h

/-- **Combining changes the tree and not its text.** -/
theorem render_combine :
    (combine op right left).render = left.render ++ " " ++ op.symbol ++ " " ++ right.render := by
  fun_induction combine op right left with
  | case1 first outer second houter ih => simp [render, ih, String.append_assoc]
  | case2 first outer second houter => rfl
  | case3 => rfl

/-- Except for powers, an operand is taken on the left up to the operator's tier and
on the right below it. -/
theorem takes_iff (hop : op ≠ .pow) :
    takes left op right = true ↔ left.tier ≤ op.tier ∧ right.tier < op.tier := by
  simp [takes, hop]

/-- Operands that stand where they belong do so after an operator has taken what
is left to it. -/
theorem isOrdered_combine (hop : op ≠ .pow) (hleft : left.isOrdered = true)
    (hright : right.isOrdered = true) (htier : right.tier < op.tier) :
    (combine op right left).isOrdered = true := by
  fun_induction combine op right left with
  | case1 first outer second houter ih =>
      have hpow : outer ≠ .pow := by
        rintro rfl
        exact Nat.not_lt_zero _ houter
      simp only [isOrdered, Bool.and_eq_true, takes_iff hpow] at hleft ⊢
      obtain ⟨⟨hfirst, hsecond⟩, horder⟩ := hleft
      refine ⟨⟨hfirst, ?_⟩, horder.1, ih horder.2⟩
      rw [tier_combine]
      exact Nat.max_lt.2 ⟨hsecond, houter⟩
  | case2 first outer second houter =>
      have hle : (Expr.binary first outer second).tier ≤ op.tier := Nat.not_lt.1 houter
      rw [isOrdered, hleft, hright, (takes_iff hop).2 ⟨hle, htier⟩]
      rfl
  | case3 left hbinary =>
      have hzero : left.tier = 0 := by
        cases left with
        | binary first outer second => exact absurd rfl (hbinary first outer second)
        | _ => rfl
      rw [isOrdered, hleft, hright, (takes_iff hop).2 ⟨by omega, htier⟩]
      rfl

/-- The leaves are those of the operands. -/
theorem isSpelled_combine (hleft : left.IsSpelled) (hright : right.IsSpelled) :
    (combine op right left).IsSpelled := by
  fun_induction combine op right left with
  | case1 first outer second houter ih => exact ⟨hleft.1, ih hleft.2⟩
  | case2 | case3 => exact ⟨hleft, hright⟩

/-- An operator that is outermost when it is read has taken the whole left
operand. -/
theorem tier_le_of_skeleton_combine {first second : Expr}
    (h : (combine op right left).skeleton = .binary first op second) : left.tier ≤ op.tier := by
  have hskeleton (t : Expr) (ht : t.isBinary = true) : t.skeleton.tier = t.tier := by
    cases t with
    | binary => rfl
    | _ => cases ht
  have htier : (combine op right left).skeleton.tier = (combine op right left).tier :=
    hskeleton _ isBinary_combine
  rw [h, tier_combine] at htier
  calc left.tier ≤ max left.tier op.tier := Nat.le_max_left _ _
    _ = op.tier := htier.symm

/-! ### Optional parentheses -/

section Optional

variable (p : Prop) [Decidable p] (t : Expr)

/-- Parentheses are kept, and regrouping goes on inside of them. -/
theorem regroup_paren_if :
    (if p then Expr.paren t else t).regroup = if p then Expr.paren t.regroup else t.regroup := by
  split <;> rfl

theorem skeleton_paren_if : (if p then Expr.paren t else t).skeleton = t.skeleton := by
  split <;> rfl

theorem isBinary_paren_if {t : Expr} (h : t.isBinary = false) :
    (if p then Expr.paren t else t).isBinary = false := by
  split
  · rfl
  · exact h

theorem isOrdered_paren_if : (if p then Expr.paren t else t).isOrdered = t.isOrdered := by
  split <;> rfl

theorem isSpelled_paren_if : (if p then Expr.paren t else t).IsSpelled ↔ t.IsSpelled := by
  split <;> rfl

/-- Parentheses bind more strongly than anything. -/
theorem tier_paren_if_le : (if p then Expr.paren t else t).tier ≤ t.tier := by
  split
  · exact Nat.zero_le _
  · exact Nat.le_refl _

end Optional

/-! ### What regrouping leaves as it is

All that the writer asks about an expression before it puts parentheses around it.
-/

mutual

/-- **Regrouping leaves the text of an expression as it is.** -/
theorem render_regroup : (t : Expr) → t.regroup.render = t.render
  | .name text => by
      by_cases h : text = "console.log"
      · rw [h]
        rfl
      · rw [regroup, if_neg h]
  | .number _ | .string _ | .boolean _ | .null => rfl
  | .template quasis es => by rw [regroup, render, render, renderAll_regroupAll es]
  | .binary left op right => by
      rw [regroup, render_combine, render, render_regroup left, render_regroup right]
  | .unary op operand => by rw [regroup, render, render, render_regroup operand]
  | .member value field => by rw [regroup, render, render, render_regroup value]
  | .call callee args => by
      rw [regroup, render, render, render_regroup callee, renderAll_regroupAll args]
  | .index target position => by
      rw [regroup, render, render, render_regroup target, render_regroup position]
  | .array items => by rw [regroup, render, render, renderAll_regroupAll items]
  | .paren inner => by rw [regroup, render, render, render_regroup inner]

theorem renderAll_regroupAll : (es : List Expr) → renderAll (regroupAll es) = renderAll es
  | [] => rfl
  | e :: es => by
      rw [regroupAll, renderAll, renderAll, render_regroup e, renderAll_regroupAll es]

end

/-- The first lexeme is the same, so the sign is. -/
theorem startsWithSign_regroup (t : Expr) : t.regroup.startsWithSign = t.startsWithSign := by
  rw [startsWithSign, render_regroup, startsWithSign]

/-- An operation stays one, and nothing else becomes one. -/
theorem isBinary_regroup (t : Expr) : t.regroup.isBinary = t.isBinary := by
  cases t with
  | name text =>
      rw [regroup]
      split <;> rfl
  | binary left op right => exact isBinary_combine
  | _ => rfl

theorem isLeftHandSide_regroup (t : Expr) : t.regroup.isLeftHandSide = t.isLeftHandSide := by
  cases t with
  | name text =>
      rw [regroup]
      split <;> rfl
  | binary left op right => exact isLeftHandSide_combine
  | _ => rfl

/-- Regrouping never makes an expression bind more strongly: the outermost operator
may only become a weaker one. -/
theorem tier_le_tier_regroup (t : Expr) : t.tier ≤ t.regroup.tier := by
  cases t with
  | binary left op right =>
      rw [regroup, tier_combine]
      exact Nat.le_max_right _ _
  | _ => exact Nat.zero_le _

theorem length_regroupAll (es : List Expr) : (regroupAll es).length = es.length := by
  induction es with
  | nil => rfl
  | cons e es ih => simp [regroupAll, ih]

/-- The text of a tree is read as the tree regrouped. -/
theorem read_render_regroup {t : Expr} (hspelled : t.regroup.IsSpelled)
    (hordered : t.regroup.isOrdered = true) : read t.render = some t.regroup := by
  rw [← render_regroup t]
  exact read_render hspelled hordered

end Offside.Target.Expr
