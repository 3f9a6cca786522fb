import Offside.Ast.Equality
import Offside.Lowering.Expr
import Offside.Proofs.JavaScript.Regrouping
import Offside.Proofs.Lexical

/-!
# Offside.Proofs.Grouping

What JavaScript makes of the text of an expression. The text is read without
failure, and **operators without comparisons keep their operands**
(`Expr.IsParsed.exists_read_of_no_comparison`), although only few parentheses are
added. Comparisons do not always: all of them have one power in the source, while
in JavaScript `<` binds tighter than `==`. **They keep their operands if and only
if no order comparison has an equality as its left operand**
(`Expr.IsParsed.exists_read_iff_comparesInOrder`).
-/

namespace Offside

/-! ### What an expression is to be read as -/

/-- The operator that an operator is to be read as. Floor division is plain
division. -/
def BinaryOp.counterpart : BinaryOp → Target.BinaryOp
  | add => .add
  | sub => .sub
  | mul => .mul
  | div | floorDiv => .div
  | mod => .mod
  | pow => .pow
  | eq => .eq
  | notEq => .notEq
  | lt => .lt
  | gt => .gt
  | ltEq => .ltEq
  | gtEq => .gtEq
  | and => .and
  | or => .or

/-- The operator that an operator is to be read as. -/
def UnaryOp.counterpart : UnaryOp → Target.UnaryOp
  | neg => .neg
  | pos => .pos
  | not => .not

/-- The built-in functions, and what they are to be read as where they are
called. -/
def builtins : List (String × Target.Expr) :=
  [("print", .member (.name "console") "log"), ("input", .name "prompt"),
    ("int", .name "parseInt"), ("float", .name "parseFloat"), ("str", .name "String")]

namespace Expr

/-- What a built-in function is to be read as where it is called. -/
def builtin? : Expr → Option Target.Expr
  | .ident name => builtins.lookup name
  | _ => none

mutual

/-- The tree that an expression is to be read as, without parentheses. -/
def skeleton : Expr → Target.Expr
  | .ident name => .name name
  | .literal (.number value) => .number value
  | .literal (.string value) => .string value
  | .literal (.boolean value) => .boolean value
  | .literal .null => .null
  | .fstring quasis expressions => .template quasis (skeletonAll expressions)
  | .binary left op right _ => .binary (skeleton left) op.counterpart (skeleton right)
  | .unary op operand => .unary op.counterpart (skeleton operand)
  | .attr value name => .member (skeleton value) name
  | .call callee args => .call (callee.builtin?.getD (skeleton callee)) (skeletonAll args)
  | .index target position => .index (skeleton target) (skeleton position)
  | .list items => .array (skeletonAll items)
  | .group inner => skeleton inner

/-- The trees that expressions are to be read as. -/
def skeletonAll : List Expr → List Target.Expr
  | [] => []
  | e :: es => skeleton e :: skeletonAll es

end

/-! ### Properties of all parts -/

mutual

/-- A property holds of an expression and of all expressions in it. -/
def everywhere (p : Expr → Bool) : Expr → Bool
  | .ident name => p (.ident name)
  | .literal value => p (.literal value)
  | .fstring quasis expressions =>
    p (.fstring quasis expressions) && everywhereAll p expressions
  | .binary left op right line =>
    p (.binary left op right line) && (everywhere p left && everywhere p right)
  | .unary op operand => p (.unary op operand) && everywhere p operand
  | .attr value name => p (.attr value name) && everywhere p value
  | .call callee args => p (.call callee args) && (everywhere p callee && everywhereAll p args)
  | .index target position =>
    p (.index target position) && (everywhere p target && everywhere p position)
  | .list items => p (.list items) && everywhereAll p items
  | .group inner => p (.group inner) && everywhere p inner

/-- A property holds of the expressions and of all expressions in them. -/
def everywhereAll (p : Expr → Bool) : List Expr → Bool
  | [] => true
  | e :: es => everywhere p e && everywhereAll p es

end

theorem and_eq_true_imp {a b c d : Bool} (hac : a = true → c = true) (hbd : b = true → d = true)
    (h : (a && b) = true) : (c && d) = true := by
  obtain ⟨ha, hb⟩ := Bool.and_eq_true_iff.1 h
  exact Bool.and_eq_true_iff.2 ⟨hac ha, hbd hb⟩

mutual

/-- What holds at all parts of an expression can be weakened at all of them. -/
theorem everywhere_imp {p q : Expr → Bool} (hpq : ∀ e, p e = true → q e = true) :
    (e : Expr) → e.everywhere p = true → e.everywhere q = true
  | .ident _ | .literal _ => hpq _
  | .fstring _ es => and_eq_true_imp (hpq _) (everywhereAll_imp hpq es)
  | .binary left _ right _ =>
      and_eq_true_imp (hpq _)
        (and_eq_true_imp (everywhere_imp hpq left) (everywhere_imp hpq right))
  | .unary _ operand => and_eq_true_imp (hpq _) (everywhere_imp hpq operand)
  | .attr value _ => and_eq_true_imp (hpq _) (everywhere_imp hpq value)
  | .call callee args =>
      and_eq_true_imp (hpq _)
        (and_eq_true_imp (everywhere_imp hpq callee) (everywhereAll_imp hpq args))
  | .index target position =>
      and_eq_true_imp (hpq _)
        (and_eq_true_imp (everywhere_imp hpq target) (everywhere_imp hpq position))
  | .list items => and_eq_true_imp (hpq _) (everywhereAll_imp hpq items)
  | .group inner => and_eq_true_imp (hpq _) (everywhere_imp hpq inner)

theorem everywhereAll_imp {p q : Expr → Bool} (hpq : ∀ e, p e = true → q e = true) :
    (es : List Expr) → everywhereAll p es = true → everywhereAll q es = true
  | [] => id
  | e :: es => and_eq_true_imp (everywhere_imp hpq e) (everywhereAll_imp hpq es)

end

/-- A number literal. -/
def isNumber : Expr → Bool
  | .literal (.number _) => true
  | _ => false

/-- Nothing keeps JavaScript from reading an expression whose parts it can read: a
name is not reserved, a number is finite, and what has an attribute is no
number. -/
def isReadable : Expr → Bool
  | .ident name => !Target.reservedWords.contains name
  | .literal (.number (.finite ..)) => true
  | .literal (.number _) => false
  | .attr value _ => !value.isNumber
  | _ => true

end Expr

/-- The comparisons of two values by their order. -/
def BinaryOp.isRelational : BinaryOp → Bool
  | lt | gt | ltEq | gtEq => true
  | _ => false

/-- The comparisons for being equal or not. -/
def BinaryOp.isEquality : BinaryOp → Bool
  | eq | notEq => true
  | _ => false

namespace Expr

/-- A comparison. -/
def isComparison : Expr → Bool
  | .binary _ op _ _ => op.isRelational || op.isEquality
  | _ => false

/-- A comparison for being equal or not. -/
def isEquality : Expr → Bool
  | .binary _ op _ _ => op.isEquality
  | _ => false

/-- An expression is no comparison by order that has an equality as its left
operand without parentheses, as `a == b < c` has. -/
def comparesInOrder : Expr → Bool
  | .binary left op _ _ => !(op.isRelational && left.isEquality)
  | _ => true

theorem comparesInOrder_of_isComparison {e : Expr} (h : (!e.isComparison) = true) :
    e.comparesInOrder = true := by
  cases e with
  | binary left op right line =>
      simp only [isComparison, Bool.not_eq_true', Bool.or_eq_false_iff] at h
      rw [comparesInOrder, h.1]
      rfl
  | _ => rfl

end Expr

/-! ### Names -/

/-- A word of the source is a name of the code. -/
theorem isName_of_isWord {text : List Char} (h : Lexeme.isWord text = true) :
    Target.Lexeme.isName text = true := by
  have hstart (c : Char) (hc : Lexeme.isWordStart c = true) :
      Target.Lexeme.isNameStart c = true := Bool.or_eq_true_iff.2 (.inl hc)
  have hpart (c : Char) (hc : Lexeme.isWordPart c = true) :
      Target.Lexeme.isNamePart c = true := Bool.or_eq_true_iff.2 (.inl hc)
  cases text with
  | nil => cases h
  | cons c cs =>
      obtain ⟨hc, hcs⟩ := Bool.and_eq_true_iff.1 h
      have hall : ∀ d ∈ cs, Target.Lexeme.isNamePart d = true := by
        intro d hd
        exact hpart d (List.all_eq_true.1 hcs d hd)
      exact Bool.and_eq_true_iff.2 ⟨hstart c hc, List.all_eq_true.2 hall⟩

theorem regroup_name {name : String} (h : Lexeme.isWord name.toList = true) :
    (Target.Expr.name name).regroup = .name name := by
  have hne : name ≠ "console.log" := by
    rintro rfl
    exact absurd h (by decide)
  rw [Target.Expr.regroup, if_neg hne]

theorem lookup_map {α β γ : Type} [BEq α] (f : β → γ) (l : List (α × β)) (a : α) :
    (l.map fun p => (p.1, f p.2)).lookup a = (l.lookup a).map f := by
  induction l with
  | nil => rfl
  | cons p l ih =>
      rw [List.map_cons, List.lookup_cons, List.lookup_cons]
      cases a == p.1 with
      | true => rfl
      | false => exact ih

/-- The names of built-in functions have a tree of their own, for the dots in them. -/
theorem lookup_builtins (name : String) :
    builtins.lookup name =
      (intrinsics.lookup name).map fun text => (Target.Expr.name text).regroup := by
  have hbuiltins :
      builtins = intrinsics.map fun p => (p.1, (Target.Expr.name p.2).regroup) := rfl
  rw [hbuiltins, lookup_map fun text => (Target.Expr.name text).regroup]

namespace Expr

/-- What a built-in function is to be read as is a name or a field, so that
nothing about it depends on its place. -/
theorem facts_of_builtin? {callee : Expr} {t : Target.Expr} (h : callee.builtin? = some t) :
    t.IsSpelled ∧ t.isOrdered = true ∧ t.isLeftHandSide = true ∧ t.skeleton = t := by
  have hname (text : String) (hword : Lexeme.isWord text.toList = true) :
      (Target.Expr.name text).IsSpelled := isName_of_isWord hword
  have hall : ∀ p ∈ builtins, p.2.IsSpelled ∧ p.2.isOrdered = true ∧
      p.2.isLeftHandSide = true ∧ p.2.skeleton = p.2 := by
    simp only [builtins, List.forall_mem_cons]
    exact ⟨⟨⟨rfl, by decide, hname _ (by decide)⟩, by decide, rfl, rfl⟩,
      ⟨hname _ (by decide), by decide, rfl, rfl⟩, ⟨hname _ (by decide), by decide, rfl, rfl⟩,
      ⟨hname _ (by decide), by decide, rfl, rfl⟩, ⟨hname _ (by decide), by decide, rfl, rfl⟩,
      by simp⟩
  cases callee with
  | ident name => exact hall (name, t) (mem_of_lookup_eq_some h)
  | _ => cases h

/-- A called name is read as what it is to be read as, and any other called
expression as if it were not called. -/
theorem regroup_lowerCallee (callee : Expr) :
    (lowerCallee callee.lower).regroup = callee.builtin?.getD callee.lower.regroup := by
  cases callee with
  | ident name =>
      rw [lower, lowerCallee, builtin?, lookup_builtins]
      cases intrinsics.lookup name <;> rfl
  | literal value => cases value <;> rfl
  | unary op operand => cases op <;> rfl
  | _ => rfl

/-! ### Trees of operations -/

theorem lower_eq_counterpart (op : BinaryOp) : op.lower = op.counterpart := by
  cases op <;> rfl

/-- An operation is regrouped by combining its operands, which are regrouped already. -/
theorem regroup_binary (left : Expr) (op : BinaryOp) (right : Expr) (line : Nat) :
    (binary left op right line).lower.regroup =
      Target.Expr.combine op.lower right.lower.regroup
        (if op = .pow ∧ left.needsParensAsBase = true then .paren left.lower.regroup
          else left.lower.regroup) := by
  rw [← Target.Expr.regroup_paren_if]
  rfl

/-- A sign before a sign is written with parentheses and keeps them. -/
theorem regroup_unary (op : UnaryOp) (operand : Expr) :
    (unary op operand).lower.regroup =
      .unary op.counterpart
        (if op ≠ .not ∧ operand.lower.startsWithSign = true then .paren operand.lower.regroup
          else operand.lower.regroup) := by
  rw [← Target.Expr.regroup_paren_if]
  cases op with
  | not => rfl
  | neg | pos => simp [lower, lowerSign, Target.Expr.regroup, UnaryOp.counterpart]

/-- What can be called or accessed in the code is what can be in the source. -/
theorem isLeftHandSide_lower (e : Expr) : e.lower.isLeftHandSide = e.isPrimary := by
  cases e with
  | literal value => cases value <;> rfl
  | unary op operand => cases op <;> rfl
  | _ => rfl

theorem isBinary_lower (e : Expr) : e.lower.isBinary = e.isBinary := by
  cases e with
  | literal value => cases value <;> rfl
  | unary op operand => cases op <;> rfl
  | _ => rfl

/-- The base of a power is no operation without parentheses. -/
theorem isPrimary_of_base {left : Expr} (hpower : left.hasPower BinaryOp.pow.precedence = true)
    (hparens : left.needsParensAsBase = false) : left.isPrimary = true := by
  cases left with
  | binary first op second line =>
      have hop : op = .pow := by
        have hle : BinaryOp.pow.precedence ≤ op.precedence := of_decide_eq_true hpower
        cases op <;> first | rfl | exact absurd hle (by decide)
      rw [hop] at hparens
      cases hparens
  | unary op operand => cases hparens
  | _ => rfl

end Expr

/-! ### Tiers of operations

Both languages order their operators, and not quite in the same way: equality binds
less strongly than the other comparisons in the code and as strongly in the source.
`greatestTier` bounds what that can do.
-/

/-- The greatest tier that the operators of the given power and the greater ones
have. -/
def greatestTier (power : Nat) : Nat := if 8 ≤ power then 10 - power else min 6 (11 - power)

/-- The more strongly operators bind, the less far their tiers go. -/
theorem greatestTier_anti {j k : Nat} (h : j ≤ k) : greatestTier k ≤ greatestTier j := by
  unfold greatestTier
  split <;> split <;> omega

namespace BinaryOp

/-- The tier of an operator is one of those that its precedence allows. -/
theorem tier_lower_le (op : BinaryOp) : op.lower.tier ≤ greatestTier op.precedence := by
  cases op <;> decide

/-- A right operand binds more strongly than its operator in the code too. -/
theorem greatestTier_lt {op : BinaryOp} (h : op ≠ .pow) :
    greatestTier (op.precedence + 1) < op.lower.tier := by
  cases op <;> first | exact absurd rfl h | decide

theorem lower_ne_pow {op : BinaryOp} (h : op ≠ .pow) : op.lower ≠ .pow := by
  cases op <;> first | exact absurd rfl h | decide

/-- The operator on the left of two binds tighter in both languages, or as
tightly, unless it compares for being equal and the other one by order. -/
theorem tier_lower_le_iff {op inner : BinaryOp} (hpower : op.precedence ≤ inner.precedence) :
    inner.lower.tier ≤ op.lower.tier ↔ (op.isRelational && inner.isEquality) = false := by
  have hall : ∀ a ∈ all, ∀ b ∈ all, a.precedence ≤ b.precedence →
      (b.lower.tier ≤ a.lower.tier ↔ (a.isRelational && b.isEquality) = false) := by decide
  have hmem (op : BinaryOp) : op ∈ all := by cases op <;> decide
  exact hall op (hmem op) inner (hmem inner) hpower

end BinaryOp

namespace Expr

theorem tier_lower_le_iff {left : Expr} {op : BinaryOp} (h : left.hasPower op.precedence = true) :
    left.lower.tier ≤ op.lower.tier ↔ (op.isRelational && left.isEquality) = false := by
  by_cases hbinary : left.isBinary = true
  · cases left with
    | binary first inner second line => exact BinaryOp.tier_lower_le_iff (of_decide_eq_true h)
    | _ => cases hbinary
  · rw [Bool.not_eq_true] at hbinary
    have htier : left.lower.tier = 0 := by
      apply Target.Expr.tier_of_isBinary
      rw [isBinary_lower, hbinary]
    have hequality : left.isEquality = false := by
      cases left with
      | binary => cases hbinary
      | _ => rfl
    simp [htier, hequality]

theorem tier_regroup_of_isBinary {e : Expr} (h : e.isBinary = false) :
    e.lower.regroup.tier = 0 := by
  apply Target.Expr.tier_of_isBinary
  rw [Target.Expr.isBinary_regroup, isBinary_lower, h]

/-- A grouped expression is read with no operator looser than its power says. -/
theorem tier_regroup_le : (e : Expr) → {m : Nat} → e.isGrouped = true → e.hasPower m = true →
    e.lower.regroup.tier ≤ greatestTier m
  | .binary left op right line, m, hgrouped, hpower => by
      simp only [isGrouped, Bool.and_eq_true] at hgrouped
      have hm : greatestTier op.precedence ≤ greatestTier m :=
        greatestTier_anti (of_decide_eq_true hpower)
      have hleft := tier_regroup_le left hgrouped.2.1 hgrouped.1.1
      rw [regroup_binary, Target.Expr.tier_combine]
      refine Nat.max_le.2 ⟨?_, Nat.le_trans op.tier_lower_le hm⟩
      exact Nat.le_trans (Target.Expr.tier_paren_if_le _ _) (Nat.le_trans hleft hm)
  | .ident _, _, _, _ | .literal _, _, _, _ | .fstring .., _, _, _ | .unary .., _, _, _
  | .attr .., _, _, _ | .call .., _, _, _ | .index .., _, _, _ | .list _, _, _, _
  | .group _, _, _, _ => by
      rw [tier_regroup_of_isBinary rfl]
      exact Nat.zero_le _

/-- Where comparisons are in order, the outermost operator stays outermost. -/
theorem tier_regroup_of_comparesInOrder : (e : Expr) → e.isGrouped = true →
    e.everywhere comparesInOrder = true → e.lower.regroup.tier = e.lower.tier
  | .binary left op right line, hgrouped, horder => by
      simp only [isGrouped, everywhere, comparesInOrder, Bool.and_eq_true,
        Bool.not_eq_true'] at hgrouped horder
      have htier := tier_regroup_of_comparesInOrder left hgrouped.2.1 horder.2.1
      rw [regroup_binary, Target.Expr.tier_combine]
      refine Nat.max_eq_right (Nat.le_trans (Target.Expr.tier_paren_if_le _ _) ?_)
      rw [htier]
      exact (tier_lower_le_iff hgrouped.1.1).2 horder.1
  | .ident _, _, _ | .literal _, _, _ | .fstring .., _, _ | .unary .., _, _ | .attr .., _, _
  | .call .., _, _ | .index .., _, _ | .list _, _, _ | .group _, _, _ => by
      rw [tier_regroup_of_isBinary rfl, Target.Expr.tier_of_isBinary (isBinary_lower _)]

/-! ### Order

The regrouped tree is grouped as the code is read, whatever the source meant.
-/

theorem isLeftHandSide_base {left : Expr} {op : BinaryOp} (hop : op = .pow)
    (hpower : left.hasPower op.precedence = true) :
    (if op = .pow ∧ left.needsParensAsBase = true then Target.Expr.paren left.lower.regroup
      else left.lower.regroup).isLeftHandSide = true := by
  subst hop
  split
  · rfl
  · next hparens =>
      rw [Target.Expr.isLeftHandSide_regroup, isLeftHandSide_lower]
      exact isPrimary_of_base hpower (by simpa using hparens)

/-- An operation is read as it is grouped, if its operands are. -/
theorem isOrdered_binary {left right : Expr} {op : BinaryOp} {line : Nat}
    (hgrouped : (binary left op right line).isGrouped = true)
    (hleft : left.lower.regroup.isOrdered = true) (hright : right.lower.regroup.isOrdered = true) :
    (binary left op right line).lower.regroup.isOrdered = true := by
  simp only [isGrouped, Bool.and_eq_true] at hgrouped
  have htier := tier_regroup_le right hgrouped.2.2 hgrouped.1.2
  rw [regroup_binary]
  by_cases hop : op = .pow
  · have hbase := isLeftHandSide_base hop hgrouped.1.1
    have hle := Nat.le_trans (Nat.le_of_eq (Target.Expr.tier_of_isLeftHandSide hbase))
      (Nat.zero_le op.lower.tier)
    subst hop
    rw [Target.Expr.combine_of_le hle, Target.Expr.isOrdered, Target.Expr.isOrdered_paren_if, hleft,
      hright, BinaryOp.lower, Target.Expr.takes, if_pos rfl, hbase, Nat.le_zero.1 htier]
    rfl
  · refine Target.Expr.isOrdered_combine (BinaryOp.lower_ne_pow hop) ?_ hright ?_
    · rw [Target.Expr.isOrdered_paren_if]
      exact hleft
    · exact Nat.lt_of_le_of_lt htier (BinaryOp.greatestTier_lt hop)

theorem isOrdered_callee {callee : Expr} (hprimary : callee.isPrimary = true)
    (hcallee : callee.lower.regroup.isOrdered = true) :
    (callee.builtin?.getD callee.lower.regroup).isLeftHandSide = true ∧
      (callee.builtin?.getD callee.lower.regroup).isOrdered = true := by
  cases h : callee.builtin? with
  | none =>
      refine ⟨?_, hcallee⟩
      rw [Option.getD_none, Target.Expr.isLeftHandSide_regroup, isLeftHandSide_lower, hprimary]
  | some t => exact ⟨(facts_of_builtin? h).2.2.1, (facts_of_builtin? h).2.1⟩

mutual

/-- Operands stand where the tiers of the operators put them. -/
theorem isOrdered_regroup : (e : Expr) → e.IsLexical → e.isGrouped = true →
    e.everywhere isReadable = true → e.lower.regroup.isOrdered = true
  | .ident name, hlexical, _, hreadable => by
      rw [lower, regroup_name hlexical]
      exact hreadable
  | .literal (.number _), _, _, _ | .literal (.string _), _, _, _
  | .literal (.boolean _), _, _, _ | .literal .null, _, _, _ => rfl
  | .fstring quasis es, hlexical, hgrouped, hreadable => by
      have hes := areOrdered_regroupAll es hlexical.2 hgrouped hreadable
      rw [lower, Target.Expr.regroup, Target.Expr.isOrdered, hes, Target.Expr.length_regroupAll,
        length_lowerAll, Bool.and_true]
      exact decide_eq_true hlexical.1
  | .binary left op right line, hlexical, hgrouped, hreadable => by
      have hparts := hgrouped
      simp only [isGrouped, everywhere, Bool.and_eq_true] at hparts hreadable
      exact isOrdered_binary hgrouped
        (isOrdered_regroup left hlexical.1 hparts.2.1 hreadable.2.1)
        (isOrdered_regroup right hlexical.2 hparts.2.2 hreadable.2.2)
  | .unary op operand, hlexical, hgrouped, hreadable => by
      simp only [isGrouped, Bool.and_eq_true, Bool.not_eq_true'] at hgrouped
      have hoperand := isOrdered_regroup operand hlexical hgrouped.2 hreadable
      have hbinary : operand.lower.regroup.isBinary = false := by
        rw [Target.Expr.isBinary_regroup, isBinary_lower, hgrouped.1]
      rw [regroup_unary, Target.Expr.isOrdered, Target.Expr.isOrdered_paren_if, hoperand,
        Target.Expr.isBinary_paren_if _ hbinary]
      rfl
  | .attr value name, hlexical, hgrouped, hreadable => by
      simp only [isGrouped, everywhere, Bool.and_eq_true] at hgrouped hreadable
      have hvalue := isOrdered_regroup value hlexical.2 hgrouped.2 hreadable.2
      rw [lower, Target.Expr.regroup, Target.Expr.isOrdered, Target.Expr.isLeftHandSide_regroup,
        isLeftHandSide_lower, hgrouped.1, hvalue]
      rfl
  | .call callee args, hlexical, hgrouped, hreadable => by
      simp only [isGrouped, everywhere, Bool.and_eq_true] at hgrouped hreadable
      obtain ⟨hside, hcallee⟩ := isOrdered_callee hgrouped.1.1
        (isOrdered_regroup callee hlexical.1 hgrouped.1.2 hreadable.2.1)
      have hargs := areOrdered_regroupAll args hlexical.2 hgrouped.2 hreadable.2.2
      rw [lower, Target.Expr.regroup, regroup_lowerCallee, Target.Expr.isOrdered, hside, hcallee,
        hargs]
      rfl
  | .index target position, hlexical, hgrouped, hreadable => by
      simp only [isGrouped, everywhere, Bool.and_eq_true] at hgrouped hreadable
      have htarget := isOrdered_regroup target hlexical.1 hgrouped.1.2 hreadable.2.1
      have hposition := isOrdered_regroup position hlexical.2 hgrouped.2 hreadable.2.2
      rw [lower, Target.Expr.regroup, Target.Expr.isOrdered, Target.Expr.isLeftHandSide_regroup,
        isLeftHandSide_lower, hgrouped.1.1, htarget, hposition]
      rfl
  | .list items, hlexical, hgrouped, hreadable =>
      areOrdered_regroupAll items hlexical hgrouped hreadable
  | .group inner, hlexical, hgrouped, hreadable =>
      isOrdered_regroup inner hlexical hgrouped hreadable

theorem areOrdered_regroupAll : (es : List Expr) → AreLexical es → areGrouped es = true →
    everywhereAll isReadable es = true →
      Target.Expr.areOrdered (Target.Expr.regroupAll (lowerAll es)) = true
  | [], _, _, _ => rfl
  | e :: es, hlexical, hgrouped, hreadable => by
      obtain ⟨hgroupede, hgroupedes⟩ := Bool.and_eq_true_iff.1 hgrouped
      obtain ⟨hreadablee, hreadablees⟩ := Bool.and_eq_true_iff.1 hreadable
      exact Bool.and_eq_true_iff.2 ⟨isOrdered_regroup e hlexical.1 hgroupede hreadablee,
        areOrdered_regroupAll es hlexical.2 hgroupedes hreadablees⟩

end

/-! ### Spelling -/

theorem endsInNumber_regroup {e : Expr} (hprimary : e.isPrimary = true)
    (hnumber : e.isNumber = false) : e.lower.regroup.endsInNumber = false := by
  cases e with
  | ident name =>
      rw [lower, Target.Expr.regroup]
      split <;> rfl
  | literal value =>
      cases value with
      | number => cases hnumber
      | _ => rfl
  | binary => cases hprimary
  | unary => cases hprimary
  | _ => rfl

/-- The code of a unary operation has a spelling for each leaf. -/
theorem isSpelled_unary {op : UnaryOp} {operand : Expr} (h : operand.lower.regroup.IsSpelled) :
    (unary op operand).lower.regroup.IsSpelled := by
  rw [regroup_unary]
  refine ⟨?_, (Target.Expr.isSpelled_paren_if _ _).2 h⟩
  by_cases hop : op = .not
  · exact .inl (by rw [hop]; rfl)
  · right
    split
    · simp [Target.Expr.startsWithSign, Target.Expr.render]
    · next hsign =>
        rw [Target.Expr.startsWithSign_regroup]
        simpa [hop] using hsign

mutual

/-- The pieces of the text can be told apart. -/
theorem isSpelled_regroup : (e : Expr) → e.IsLexical → e.isGrouped = true →
    e.everywhere isReadable = true → e.lower.regroup.IsSpelled
  | .ident name, hlexical, _, _ => by
      rw [lower, regroup_name hlexical]
      exact isName_of_isWord hlexical
  | .literal (.number (.finite negative m k)), hlexical, _, _ => by
      obtain ⟨rfl, hcanonical⟩ := hlexical
      exact ⟨m, k, rfl, hcanonical⟩
  | .literal (.number (.infinite _)), _, _, hreadable => by cases hreadable
  | .literal (.number .nan), _, _, hreadable => by cases hreadable
  | .literal (.string _), _, _, _ | .literal (.boolean _), _, _, _
  | .literal .null, _, _, _ => trivial
  | .fstring quasis es, hlexical, hgrouped, hreadable => by
      refine ⟨?_, areSpelled_regroupAll es hlexical.2 hgrouped hreadable⟩
      rw [Target.Expr.length_regroupAll, length_lowerAll]
      exact hlexical.1
  | .binary left op right line, hlexical, hgrouped, hreadable => by
      simp only [isGrouped, everywhere, Bool.and_eq_true] at hgrouped hreadable
      have hleft := isSpelled_regroup left hlexical.1 hgrouped.2.1 hreadable.2.1
      have hright := isSpelled_regroup right hlexical.2 hgrouped.2.2 hreadable.2.2
      rw [regroup_binary]
      exact Target.Expr.isSpelled_combine ((Target.Expr.isSpelled_paren_if _ _).2 hleft) hright
  | .unary op operand, hlexical, hgrouped, hreadable =>
      isSpelled_unary
        (isSpelled_regroup operand hlexical (Bool.and_eq_true_iff.1 hgrouped).2 hreadable)
  | .attr value name, hlexical, hgrouped, hreadable => by
      simp only [isGrouped, everywhere, isReadable, Bool.and_eq_true,
        Bool.not_eq_true'] at hgrouped hreadable
      exact ⟨endsInNumber_regroup hgrouped.1 hreadable.1, isName_of_isWord hlexical.1,
        isSpelled_regroup value hlexical.2 hgrouped.2 hreadable.2⟩
  | .call callee args, hlexical, hgrouped, hreadable => by
      simp only [isGrouped, everywhere, Bool.and_eq_true] at hgrouped hreadable
      have hcallee := isSpelled_regroup callee hlexical.1 hgrouped.1.2 hreadable.2.1
      have hargs := areSpelled_regroupAll args hlexical.2 hgrouped.2 hreadable.2.2
      rw [lower, Target.Expr.regroup, regroup_lowerCallee]
      cases h : callee.builtin? with
      | none => exact ⟨hcallee, hargs⟩
      | some t => exact ⟨(facts_of_builtin? h).1, hargs⟩
  | .index target position, hlexical, hgrouped, hreadable => by
      simp only [isGrouped, everywhere, Bool.and_eq_true] at hgrouped hreadable
      exact ⟨isSpelled_regroup target hlexical.1 hgrouped.1.2 hreadable.2.1,
        isSpelled_regroup position hlexical.2 hgrouped.2 hreadable.2.2⟩
  | .list items, hlexical, hgrouped, hreadable =>
      areSpelled_regroupAll items hlexical hgrouped hreadable
  | .group inner, hlexical, hgrouped, hreadable =>
      isSpelled_regroup inner hlexical hgrouped hreadable

theorem areSpelled_regroupAll : (es : List Expr) → AreLexical es → areGrouped es = true →
    everywhereAll isReadable es = true →
      Target.Expr.AreSpelled (Target.Expr.regroupAll (lowerAll es))
  | [], _, _, _ => trivial
  | e :: es, hlexical, hgrouped, hreadable => by
      obtain ⟨hgroupede, hgroupedes⟩ := Bool.and_eq_true_iff.1 hgrouped
      obtain ⟨hreadablee, hreadablees⟩ := Bool.and_eq_true_iff.1 hreadable
      exact ⟨isSpelled_regroup e hlexical.1 hgroupede hreadablee,
        areSpelled_regroupAll es hlexical.2 hgroupedes hreadablees⟩

end

/-! ### Grouping

Whether that is what the source meant comes down to the comparisons.
-/

/-- An operation keeps its grouping exactly if its operands do and it is not a
comparison around an equality. -/
theorem skeleton_binary_iff {left right : Expr} {op : BinaryOp} {line : Nat}
    (hgrouped : (binary left op right line).isGrouped = true)
    (hleft : left.lower.regroup.skeleton = left.skeleton ↔ left.everywhere comparesInOrder = true)
    (hright :
      right.lower.regroup.skeleton = right.skeleton ↔ right.everywhere comparesInOrder = true) :
    (binary left op right line).lower.regroup.skeleton = (binary left op right line).skeleton ↔
      (binary left op right line).everywhere comparesInOrder = true := by
  simp only [isGrouped, Bool.and_eq_true] at hgrouped
  obtain ⟨⟨hpower, -⟩, hgroupedLeft, -⟩ := hgrouped
  rw [regroup_binary, skeleton, ← lower_eq_counterpart]
  simp only [everywhere, comparesInOrder, Bool.and_eq_true, Bool.not_eq_true']
  constructor
  · intro h
    -- The operator is outermost after reading, so it has taken all of its left operand.
    have hle := Target.Expr.tier_le_of_skeleton_combine h
    rw [Target.Expr.combine_of_le hle, Target.Expr.skeleton, Target.Expr.skeleton_paren_if] at h
    obtain ⟨hl, -, hr⟩ := Target.Expr.binary.inj h
    refine ⟨?_, hleft.1 hl, hright.1 hr⟩
    by_cases hop : op = .pow
    · rw [hop]
      rfl
    · rw [if_neg fun hbase => hop hbase.1] at hle
      exact (tier_lower_le_iff hpower).1
        (Nat.le_trans (Target.Expr.tier_le_tier_regroup left.lower) hle)
  · rintro ⟨hop, hl, hr⟩
    have htier : left.lower.regroup.tier ≤ op.lower.tier := by
      rw [tier_regroup_of_comparesInOrder left hgroupedLeft hl]
      exact (tier_lower_le_iff hpower).2 hop
    rw [Target.Expr.combine_of_le (Nat.le_trans (Target.Expr.tier_paren_if_le _ _) htier),
      Target.Expr.skeleton, Target.Expr.skeleton_paren_if, hleft.2 hl, hright.2 hr]

theorem skeleton_callee_iff {callee : Expr}
    (h :
      callee.lower.regroup.skeleton = callee.skeleton ↔ callee.everywhere comparesInOrder = true) :
    (callee.builtin?.getD callee.lower.regroup).skeleton = callee.builtin?.getD callee.skeleton ↔
      callee.everywhere comparesInOrder = true := by
  cases hbuiltin : callee.builtin? with
  | none => exact h
  | some t =>
      have hcallee : callee.everywhere comparesInOrder = true := by
        cases callee with
        | ident name => rfl
        | _ => cases hbuiltin
      simp [hcallee, (facts_of_builtin? hbuiltin).2.2.2]

mutual

/-- What is read has the grouping of the expression if and only if comparisons
are in order. -/
theorem skeleton_regroup_iff : (e : Expr) → e.IsLexical → e.isGrouped = true →
    (e.lower.regroup.skeleton = e.skeleton ↔ e.everywhere comparesInOrder = true)
  | .ident name, hlexical, _ => by
      rw [lower, regroup_name hlexical]
      exact iff_of_true rfl rfl
  | .literal (.number _), _, _ | .literal (.string _), _, _
  | .literal (.boolean _), _, _ | .literal .null, _, _ => iff_of_true rfl rfl
  | .fstring quasis es, hlexical, hgrouped => by
      have hes := skeletonAll_regroupAll_iff es hlexical.2 hgrouped
      simp [lower, Target.Expr.regroup, Target.Expr.skeleton, skeleton, everywhere, comparesInOrder,
        hes]
  | .binary left op right line, hlexical, hgrouped => by
      have hparts := hgrouped
      simp only [isGrouped, Bool.and_eq_true] at hparts
      exact skeleton_binary_iff hgrouped (skeleton_regroup_iff left hlexical.1 hparts.2.1)
        (skeleton_regroup_iff right hlexical.2 hparts.2.2)
  | .unary op operand, hlexical, hgrouped => by
      have hoperand := skeleton_regroup_iff operand hlexical (Bool.and_eq_true_iff.1 hgrouped).2
      rw [regroup_unary]
      simp [Target.Expr.skeleton, Target.Expr.skeleton_paren_if, skeleton, everywhere,
        comparesInOrder, hoperand]
  | .attr value name, hlexical, hgrouped => by
      have hvalue := skeleton_regroup_iff value hlexical.2 (Bool.and_eq_true_iff.1 hgrouped).2
      simp [lower, Target.Expr.regroup, Target.Expr.skeleton, skeleton, everywhere, comparesInOrder,
        hvalue]
  | .call callee args, hlexical, hgrouped => by
      simp only [isGrouped, Bool.and_eq_true] at hgrouped
      have hcallee :=
        skeleton_callee_iff (skeleton_regroup_iff callee hlexical.1 hgrouped.1.2)
      have hargs := skeletonAll_regroupAll_iff args hlexical.2 hgrouped.2
      rw [lower, Target.Expr.regroup, regroup_lowerCallee]
      simp [Target.Expr.skeleton, skeleton, everywhere, comparesInOrder, hcallee, hargs]
  | .index target position, hlexical, hgrouped => by
      simp only [isGrouped, Bool.and_eq_true] at hgrouped
      have htarget := skeleton_regroup_iff target hlexical.1 hgrouped.1.2
      have hposition := skeleton_regroup_iff position hlexical.2 hgrouped.2
      simp [lower, Target.Expr.regroup, Target.Expr.skeleton, skeleton, everywhere, comparesInOrder,
        htarget, hposition]
  | .list items, hlexical, hgrouped => by
      have hitems := skeletonAll_regroupAll_iff items hlexical hgrouped
      simp [lower, Target.Expr.regroup, Target.Expr.skeleton, skeleton, everywhere, comparesInOrder,
        hitems]
  | .group inner, hlexical, hgrouped => skeleton_regroup_iff inner hlexical hgrouped

theorem skeletonAll_regroupAll_iff : (es : List Expr) → AreLexical es → areGrouped es = true →
    (Target.Expr.skeletonAll (Target.Expr.regroupAll (lowerAll es)) = skeletonAll es ↔
      everywhereAll comparesInOrder es = true)
  | [], _, _ => iff_of_true rfl rfl
  | e :: es, hlexical, hgrouped => by
      obtain ⟨hgroupede, hgroupedes⟩ := Bool.and_eq_true_iff.1 hgrouped
      have he := skeleton_regroup_iff e hlexical.1 hgroupede
      have hes := skeletonAll_regroupAll_iff es hlexical.2 hgroupedes
      simp [lowerAll, Target.Expr.regroupAll, Target.Expr.skeletonAll, skeletonAll, everywhereAll,
        he, hes]

end

/-! ### Expressions of a source -/

/-- **The code of an expression is read as its regrouped tree.** -/
theorem IsParsed.read_toCode {e : Expr} (h : e.IsParsed)
    (hreadable : e.everywhere isReadable = true) :
    Target.Expr.read e.toCode = some e.lower.regroup :=
  Target.Expr.read_render_regroup (isSpelled_regroup e h.isLexical h.isGrouped hreadable)
    (isOrdered_regroup e h.isLexical h.isGrouped hreadable)

theorem isParsed_of_expression (source : String) {e : Expr}
    (h : ((Grammar.Cursor.ofTokens (Token.ofExpression source.toList 1)).expression 0).1.toOption =
      some e) : e.IsParsed :=
  ⟨_, _, 0, Prod.ext (eq_ok_of_toOption h) rfl, .inr ⟨source.toList, 1, List.suffix_refl _⟩⟩

/-- **Arithmetic and logic keep their grouping.** The text of an expression that
is read from a source and has no comparisons is read by JavaScript as the same
tree, up to parentheses. -/
theorem IsParsed.exists_read_of_no_comparison {e : Expr} (h : e.IsParsed)
    (hreadable : e.everywhere isReadable = true)
    (hcomparison : e.everywhere (!·.isComparison) = true) :
    ∃ t, Target.Expr.read e.toCode = some t ∧ t.skeleton = e.skeleton := by
  refine ⟨e.lower.regroup, h.read_toCode hreadable, ?_⟩
  exact (skeleton_regroup_iff e h.isLexical h.isGrouped).2
    (everywhere_imp (fun _ => comparesInOrder_of_isComparison) e hcomparison)

/-- Signs in a row, powers of powers, built-in functions and connectives: the
expression `- -a ** 2 ** -b // int(c[0].size) % 3 - [1.5, not d, 'x'] and
-(e + None) or print(f, True)`. -/
def signedPowers : Expr :=
  let number (digits : Nat) (exponent : Int) : Expr :=
    .literal (.number (Binary64.ofDecimal false ⟨digits, exponent⟩))
  let square : Expr := .binary (.unary .neg (.unary .neg (.ident "a"))) .pow (number 2 0) 1
  let power : Expr := .binary square .pow (.unary .neg (.ident "b")) 1
  let size : Expr := .attr (.index (.ident "c") (number 0 0)) "size"
  let quotient : Expr := .binary power .floorDiv (.call (.ident "int") [size]) 1
  let items : List Expr := [number 15 (-1), .unary .not (.ident "d"), .literal (.string "x")]
  let difference : Expr := .binary (.binary quotient .mod (number 3 0) 1) .sub (.list items) 1
  let sum : Expr := .group (.binary (.ident "e") .add (.literal .null) 1)
  .binary (.binary difference .and (.unary .neg sum) 1) .or
    (.call (.ident "print") [.ident "f", .literal (.boolean true)]) 1

theorem exists_read_signedPowers :
    signedPowers.IsParsed ∧ signedPowers.everywhere isReadable = true ∧
    signedPowers.everywhere (!·.isComparison) = true ∧
    signedPowers.toCode = "((-(-a)) ** 2) ** -b / parseInt(c[0].size) % 3 - [1.5, !d, \"x\"] && " ++
      "-(e + null) || console.log(f, true)" ∧
    ∃ t, Target.Expr.read signedPowers.toCode = some t ∧ t.skeleton = signedPowers.skeleton := by
  have hparsed : signedPowers.IsParsed :=
    isParsed_of_expression
      ("- -a ** 2 ** -b // int(c[0].size) % 3 - [1.5, not d, 'x'] and " ++
        "-(e + None) or print(f, True)") (by decide +kernel)
  have hreadable : signedPowers.everywhere isReadable = true := by decide +kernel
  have hcomparison : signedPowers.everywhere (!·.isComparison) = true := by decide +kernel
  exact ⟨hparsed, hreadable, hcomparison, by decide +kernel,
    hparsed.exists_read_of_no_comparison hreadable hcomparison⟩

/-- **Comparisons keep their grouping if and only if they are in order.** The text
of an expression that is read from a source is read by JavaScript, and what is
read is the same tree, up to parentheses, exactly if no comparison by order has an
equality as its left operand. -/
theorem IsParsed.exists_read_iff_comparesInOrder {e : Expr} (h : e.IsParsed)
    (hreadable : e.everywhere isReadable = true) :
    ∃ t, Target.Expr.read e.toCode = some t ∧
      (t.skeleton = e.skeleton ↔ e.everywhere comparesInOrder = true) :=
  ⟨e.lower.regroup, h.read_toCode hreadable, skeleton_regroup_iff e h.isLexical h.isGrouped⟩

/-- The expression `a < b + 1 >= c == d != e`. -/
def ascendingChain : Expr :=
  let sum : Expr := .binary (.ident "b") .add (.literal (.number (.ofDecimal false ⟨1, 0⟩))) 1
  .binary (.binary (.binary (.binary (.ident "a") .lt sum 1) .gtEq (.ident "c") 1) .eq
    (.ident "d") 1) .notEq (.ident "e") 1

theorem exists_read_ascendingChain :
    ascendingChain.IsParsed ∧ ascendingChain.everywhere isReadable = true ∧
    ascendingChain.everywhere comparesInOrder = true ∧
    ∃ t, Target.Expr.read ascendingChain.toCode = some t ∧
      t.skeleton = ascendingChain.skeleton := by
  have hparsed : ascendingChain.IsParsed :=
    isParsed_of_expression "a < b + 1 >= c == d != e" (by decide +kernel)
  have hreadable : ascendingChain.everywhere isReadable = true := by decide +kernel
  have horder : ascendingChain.everywhere comparesInOrder = true := by decide
  obtain ⟨t, hread, hskeleton⟩ := hparsed.exists_read_iff_comparesInOrder hreadable
  exact ⟨hparsed, hreadable, horder, t, hread, hskeleton.2 horder⟩

/-- The expression `a == b < c`, which compares the result of `a == b` with
`c`. -/
def equalityFirst : Expr :=
  .binary (.binary (.ident "a") .eq (.ident "b") 1) .lt (.ident "c") 1

/-- JavaScript compares `a` with the result of `b < c`. -/
theorem read_equalityFirst :
    equalityFirst.IsParsed ∧ equalityFirst.toCode = "a == b < c" ∧
    ∃ t, Target.Expr.read "a == b < c" = some t ∧
      t = .binary (.name "a") .eq (.binary (.name "b") .lt (.name "c")) ∧
      t.skeleton ≠ equalityFirst.skeleton := by
  have hparsed : equalityFirst.IsParsed :=
    isParsed_of_expression "a == b < c" (by decide +kernel)
  have hcode : equalityFirst.toCode = "a == b < c" := by decide
  have hread := hparsed.read_toCode (by decide)
  rw [hcode] at hread
  refine ⟨hparsed, hcode, _, hread, rfl, ?_⟩
  intro hskeleton
  exact absurd (congrArg Target.Expr.tier hskeleton) (by decide)

end Expr

end Offside
