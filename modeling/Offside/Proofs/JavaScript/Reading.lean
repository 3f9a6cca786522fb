import Offside.Proofs.JavaScript.Expression

/-!
# Offside.Proofs.JavaScript.Reading

**A tree is read from its own lexemes** if its operands stand where the tiers of
the operators put them (`Expr.isRead_of_isOrdered`). Whatever follows the lexemes
is left over, as long as it does not take the tree as an operand (`Ends`).

A tree of a tier is read at this tier and at all above it. What makes the
induction go through is that at its own tier it is read as a left operand
(`IsRead.climbs`): reading goes on with the operators of the tier that follow.
-/

namespace Offside.Target

/-! ### The lexemes of a tree -/

/-- The pieces of a template literal, and the lexemes in its placeholders. -/
def chunks (begins : Bool) : List String → List (List Lexeme) → List Lexeme
  | [], _ => []
  | quasi :: _, [] => [.chunk begins true quasi]
  | quasi :: quasis, code :: codes =>
    .chunk begins false quasi :: (code ++ chunks false quasis codes)

/-- The elements after the first one with a comma before each, and the mark that
closes them. -/
def moreListed (closing : String) : List (List Lexeme) → List Lexeme
  | [] => [.punctuator closing]
  | code :: codes => .punctuator "," :: (code ++ moreListed closing codes)

/-- Elements with commas between them, and the mark that closes them. -/
def listed (closing : String) : List (List Lexeme) → List Lexeme
  | [] => [.punctuator closing]
  | code :: codes => code ++ moreListed closing codes

namespace Expr

mutual

/-- The lexemes of an expression. -/
def lexemes : Expr → List Lexeme
  | .name text => [.name text]
  | .number value => [.number value]
  | .string value => [.string value]
  | .boolean true => [.name "true"]
  | .boolean false => [.name "false"]
  | .null => [.name "null"]
  | .template quasis substitutions => chunks true quasis (lexemesAll substitutions)
  | .binary left op right => lexemes left ++ .punctuator op.symbol :: lexemes right
  | .unary op operand => .punctuator op.symbol :: lexemes operand
  | .member value field => lexemes value ++ [.punctuator ".", .name field]
  | .call callee args => lexemes callee ++ .punctuator "(" :: listed ")" (lexemesAll args)
  | .index target position =>
    lexemes target ++ .punctuator "[" :: (lexemes position ++ [.punctuator "]"])
  | .array items => .punctuator "[" :: listed "]" (lexemesAll items)
  | .paren inner => .punctuator "(" :: (lexemes inner ++ [.punctuator ")"])

/-- The lexemes of expressions. -/
def lexemesAll : List Expr → List (List Lexeme)
  | [] => []
  | e :: es => lexemes e :: lexemesAll es

end

/-! ### Order -/

/-- The tier of an expression is that of its outermost operator. -/
def tier : Expr → Nat
  | .binary _ op _ => op.tier
  | _ => 0

/-- A binary operation. -/
def isBinary : Expr → Bool
  | .binary .. => true
  | _ => false

/-- An expression that is no operation. -/
def isLeftHandSide : Expr → Bool
  | .binary .. | .unary .. => false
  | _ => true

/-- The operands that an operator may have. -/
def takes (left : Expr) (op : BinaryOp) (right : Expr) : Bool :=
  if op = .pow then left.isLeftHandSide && right.tier = 0
  else left.tier ≤ op.tier && right.tier < op.tier

mutual

/-- Operands stand where the tiers of the operators put them, and names can be
read as such, everywhere in an expression. -/
def isOrdered : Expr → Bool
  | .name text => !reservedWords.contains text
  | .number _ | .string _ | .boolean _ | .null => true
  | .template quasis substitutions =>
    quasis.length = substitutions.length + 1 && areOrdered substitutions
  | .binary left op right => takes left op right && (isOrdered left && isOrdered right)
  | .unary _ operand => !operand.isBinary && isOrdered operand
  | .member value _ => value.isLeftHandSide && isOrdered value
  | .call callee args => callee.isLeftHandSide && isOrdered callee && areOrdered args
  | .index target position =>
    target.isLeftHandSide && isOrdered target && isOrdered position
  | .array items => areOrdered items
  | .paren inner => isOrdered inner

/-- Operands stand where they belong in all of the expressions. -/
def areOrdered : List Expr → Bool
  | [] => true
  | e :: es => isOrdered e && areOrdered es

end

end Expr

/-! ### What may follow -/

/-- A lexeme takes something of the expression before it. -/
def isAccess (x : Lexeme) : Bool :=
  x = .punctuator "." || x = .punctuator "(" || x = .punctuator "["

/-- What follows a tree of the given tier does not take it as an operand. -/
structure Ends (tier : Nat) (rest : List Lexeme) : Prop where
  access : ∀ x ∈ rest.head?, isAccess x = false
  operator : ∀ x ∈ rest.head?, ∀ op : BinaryOp, x = .punctuator op.symbol → tier < op.tier

/-- What ends a weaker operation ends a stronger one. -/
theorem Ends.mono {j k : Nat} {rest : List Lexeme} (h : Ends k rest) (hjk : j ≤ k) :
    Ends j rest :=
  ⟨h.access, fun x hx op hop => Nat.lt_of_le_of_lt hjk (h.operator x hx op hop)⟩

theorem BinaryOp.symbol_injective {op op' : BinaryOp} (h : op.symbol = op'.symbol) : op = op' := by
  have hall : ∀ a ∈ all, ∀ b ∈ all, a.symbol = b.symbol → a = b := by decide
  have hmem (op : BinaryOp) : op ∈ all := by cases op <;> decide
  exact hall op (hmem op) op' (hmem op') h

theorem BinaryOp.tier_le (op : BinaryOp) : op.tier ≤ 6 := by
  cases op <;> decide

theorem BinaryOp.tier_ne_zero {op : BinaryOp} (h : op ≠ .pow) : op.tier ≠ 0 := by
  cases op <;> first | exact absurd rfl h | decide

/-- Each operator is read at its own tier. -/
theorem binaryOp?_symbol (op : BinaryOp) :
    binaryOp? op.tier (.punctuator op.symbol) = some op := by
  cases op <;> decide

/-- An operator of a weaker tier ends an operation. -/
theorem ends_operator {k : Nat} {op : BinaryOp} (hk : k < op.tier) (rest : List Lexeme) :
    Ends k (.punctuator op.symbol :: rest) := by
  constructor
  · rintro x ⟨⟩
    cases op <;> rfl
  · rintro x ⟨⟩ op' heq
    rw [← BinaryOp.symbol_injective (Lexeme.punctuator.inj heq)]
    exact hk

/-- The marks between and behind elements. -/
def closers : List Lexeme := [.punctuator ")", .punctuator "]", .punctuator ","]

/-- A closing bracket or a comma ends everything. -/
theorem ends_closer {x : Lexeme} (hx : x ∈ closers) (rest : List Lexeme) : Ends 6 (x :: rest) := by
  have hall : ∀ x ∈ closers, isAccess x = false ∧
      ∀ op ∈ BinaryOp.all, x ≠ .punctuator op.symbol := by decide
  obtain ⟨haccess, hoperator⟩ := hall x hx
  have hmem (op : BinaryOp) : op ∈ BinaryOp.all := by cases op <;> decide
  constructor
  · rintro y ⟨⟩
    exact haccess
  · rintro y ⟨⟩ op heq
    exact absurd heq (hoperator op (hmem op))

theorem ends_chunk (begins ends : Bool) (text : String) (rest : List Lexeme) :
    Ends 6 (.chunk begins ends text :: rest) := by
  constructor
  · rintro x ⟨⟩
    rfl
  · rintro x ⟨⟩ op heq
    cases heq

theorem ends_nil : Ends 6 [] := ⟨by simp, by simp⟩

/-! ### Where reading stops

Each loop of the reader stops at once if what follows does not go on.
-/

theorem accesses_of_isAccess {rest : List Lexeme} (h : ∀ x ∈ rest.head?, isAccess x = false)
    (base : Expr) : (accesses base rest).result = some (base, rest) := by
  cases rest with
  | nil => rw [accesses]; rfl
  | cons x rest =>
      have haccess := h x rfl
      simp only [isAccess, Bool.or_eq_false_iff, decide_eq_false_iff_not] at haccess
      rw [accesses, if_neg haccess.1.1, if_neg haccess.1.2, if_neg haccess.2]
      rfl

theorem raised_of_ends {k : Nat} {rest : List Lexeme} (h : Ends k rest) (base : Expr) :
    (raised base rest).result = some (base, rest) := by
  cases rest with
  | nil => rw [raised]; rfl
  | cons x rest =>
      have hne : x ≠ .punctuator "**" := fun hx => Nat.not_lt_zero k (h.operator x rfl .pow hx)
      rw [raised, if_neg hne]
      rfl

/-- The operations of a tier stop where no operator of the tier follows. -/
theorem operations_of_ends {k : Nat} {rest : List Lexeme} (h : Ends k rest) (left : Expr) :
    (operations k left rest).result = some (left, rest) := by
  cases rest with
  | nil => rw [operations]; rfl
  | cons x rest =>
      have hnone : binaryOp? k x = none := by
        refine List.find?_eq_none.2 fun op _ hop => ?_
        obtain ⟨htier, hx⟩ := of_decide_eq_true hop
        exact absurd htier (Nat.ne_of_gt (h.operator x rfl op hx))
      rw [operations, hnone]
      rfl

/-! ### Trees that are read

`IsRead` says that a tree is read back from its lexemes at its own tier. Each form of
expression keeps it, if its parts have it and are grouped as the reader groups them.
-/

/-- A lexeme starts an operand that is no operation. -/
def startsOperand : Lexeme → Bool
  | .punctuator symbol => symbol = "(" || symbol = "["
  | .chunk begins _ _ => begins
  | _ => true

/-- A lexeme starts an expression. -/
def startsExpr (x : Lexeme) : Bool := startsOperand x || (unaryOp? x).isSome

/-- An operand that is not a unary operation starts with no unary operator. -/
theorem unaryOp?_of_startsOperand {x : Lexeme} (h : startsOperand x = true) :
    unaryOp? x = none := by
  refine List.find?_eq_none.2 fun op _ hop => ?_
  obtain rfl := of_decide_eq_true hop
  cases op <;> cases h

/-- A tree is read from its lexemes, at every place of the grammar that may hold
it. -/
structure IsRead (t : Expr) : Prop where
  starts : ∃ x xs, t.lexemes = x :: xs ∧ startsExpr x = true ∧
    (t.isLeftHandSide = true → startsOperand x = true)
  leftHandSide : t.isLeftHandSide = true → ∀ rest,
    (leftHandSide (t.lexemes ++ rest)).result = (accesses t rest).result
  unary : t.isBinary = false → ∀ rest, Ends 0 rest →
    (unary (t.lexemes ++ rest)).result = some (t, rest)
  reads : ∀ k, t.tier ≤ k → ∀ rest, Ends k rest →
    (operation k (t.lexemes ++ rest)).result = some (t, rest)
  climbs : ∀ k, t.tier ≤ k + 1 → ∀ rest, Ends k rest →
    (operation (k + 1) (t.lexemes ++ rest)).result = (operations (k + 1) t rest).result

namespace IsRead

variable {t : Expr}

/-- What is read at a tier is a left operand at the next one. -/
theorem operation_succ {k : Nat} {rest : List Lexeme}
    (h : (operation k (t.lexemes ++ rest)).result = some (t, rest)) :
    (operation (k + 1) (t.lexemes ++ rest)).result = (operations (k + 1) t rest).result := by
  rw [operation]
  obtain ⟨-, hnext⟩ := Reading.result_andThen h fun left ms _ => operations (k + 1) left ms
  exact hnext

/-- What is read at one tier is read at all tiers above it. -/
theorem operation_of_le {j k : Nat} (hjk : j ≤ k)
    (h : ∀ rest, Ends j rest → (operation j (t.lexemes ++ rest)).result = some (t, rest))
    {rest : List Lexeme} (hrest : Ends k rest) :
    (operation k (t.lexemes ++ rest)).result = some (t, rest) := by
  induction k with
  | zero =>
      obtain rfl := Nat.le_zero.1 hjk
      exact h rest hrest
  | succ k ih =>
      rcases Nat.lt_or_ge j (k + 1) with hlt | hge
      · rw [operation_succ (ih (Nat.le_of_lt_succ hlt) (hrest.mono (Nat.le_succ k)))]
        exact operations_of_ends hrest t
      · obtain rfl := Nat.le_antisymm hjk hge
        exact h rest hrest

/-- A tree of the lowest tier is read wherever a power may stand. -/
theorem climbs_of_power (h : ∀ rest, Ends 0 rest →
    (operation 0 (t.lexemes ++ rest)).result = some (t, rest)) (k : Nat) {rest : List Lexeme}
    (hrest : Ends k rest) :
    (operation (k + 1) (t.lexemes ++ rest)).result = (operations (k + 1) t rest).result :=
  operation_succ (operation_of_le (Nat.zero_le k) h hrest)

/-- An operand that is no operation is read wherever an operation may stand. -/
theorem of_leftHandSide
    (hstarts : ∃ x xs, t.lexemes = x :: xs ∧ startsOperand x = true)
    (hleft : ∀ rest, (Target.leftHandSide (t.lexemes ++ rest)).result = (accesses t rest).result) :
    IsRead t := by
  obtain ⟨x, xs, hlexemes, hx⟩ := hstarts
  have hop := unaryOp?_of_startsOperand hx
  have hend {k : Nat} {rest : List Lexeme} (hrest : Ends k rest) :
      (Target.leftHandSide (t.lexemes ++ rest)).result = some (t, rest) := by
    rw [hleft, accesses_of_isAccess hrest.access]
  have hpower : ∀ rest, Ends 0 rest →
      (operation 0 (t.lexemes ++ rest)).result = some (t, rest) := by
    intro rest hrest
    have hbase := hend hrest
    rw [hlexemes, List.cons_append] at hbase ⊢
    rw [operation, power, hop]
    obtain ⟨-, hnext⟩ := Reading.result_andThen hbase fun base ns _ => raised base ns
    rw [hnext, raised_of_ends hrest]
  refine ⟨⟨x, xs, hlexemes, by simp [startsExpr, hx], fun _ => hx⟩, fun _ => hleft, ?_, ?_, ?_⟩
  · intro _ rest hrest
    have hoperand := hend hrest
    rw [hlexemes, List.cons_append] at hoperand ⊢
    rw [Target.unary, hop]
    exact hoperand
  · intro k _ rest hrest
    exact operation_of_le (Nat.zero_le k) hpower hrest
  · intro k _ rest hrest
    exact climbs_of_power hpower k hrest

/-- A primary expression is read before everything that may follow it. -/
theorem of_primary (hstarts : ∃ x xs, t.lexemes = x :: xs ∧ startsOperand x = true)
    (hprimary : ∀ rest, (primary (t.lexemes ++ rest)).result = some (t, rest)) : IsRead t := by
  refine of_leftHandSide hstarts fun rest => ?_
  rw [Target.leftHandSide]
  obtain ⟨-, hnext⟩ := Reading.result_andThen (hprimary rest) fun base ms _ => accesses base ms
  exact hnext

/-- A unary operation is read if its operand is no binary one. -/
theorem of_unary {op : UnaryOp} (h : IsRead t) (ht : t.isBinary = false) :
    IsRead (.unary op t) := by
  have hop : unaryOp? (.punctuator op.symbol) = some op := by cases op <;> decide
  have hunary : ∀ rest, Ends 0 rest →
      (Target.unary ((Expr.unary op t).lexemes ++ rest)).result = some (.unary op t, rest) := by
    intro rest hrest
    rw [Expr.lexemes, List.cons_append, Target.unary, hop]
    simp [h.unary ht rest hrest]
  have hpower : ∀ rest, Ends 0 rest →
      (operation 0 ((Expr.unary op t).lexemes ++ rest)).result = some (.unary op t, rest) := by
    intro rest hrest
    have hread := hunary rest hrest
    rw [Expr.lexemes, List.cons_append] at hread ⊢
    rw [operation, power, hop]
    exact hread
  refine ⟨⟨_, _, rfl, by simp [startsExpr, hop], fun hleft => ?_⟩, fun hleft => ?_,
    fun _ => hunary, ?_, ?_⟩
  · cases hleft
  · cases hleft
  · intro k _ rest hrest
    exact operation_of_le (Nat.zero_le k) hpower hrest
  · intro k _ rest hrest
    exact climbs_of_power hpower k hrest

variable {l r : Expr}

/-- A power is read if its base is no operation and its exponent a unary operation
or a power. -/
theorem of_pow (hl : IsRead l) (hr : IsRead r) (hleft : l.isLeftHandSide = true)
    (hright : r.tier = 0) : IsRead (.binary l .pow r) := by
  obtain ⟨x, xs, hlexemes, -, hstarts⟩ := hl.starts
  have hop := unaryOp?_of_startsOperand (hstarts hleft)
  have hpower : ∀ rest, Ends 0 rest →
      (operation 0 ((Expr.binary l .pow r).lexemes ++ rest)).result =
        some (.binary l .pow r, rest) := by
    intro rest hrest
    have hexponent := hr.reads 0 (Nat.le_of_eq hright) rest hrest
    have hbase := hl.leftHandSide hleft (.punctuator BinaryOp.pow.symbol :: (r.lexemes ++ rest))
    rw [accesses_of_isAccess (by rintro y ⟨⟩; rfl)] at hbase
    rw [operation] at hexponent
    rw [Expr.lexemes, List.append_assoc, List.cons_append]
    rw [hlexemes, List.cons_append] at hbase ⊢
    rw [operation, power, hop]
    obtain ⟨-, hnext⟩ := Reading.result_andThen hbase fun base ns _ => raised base ns
    have hsymbol : Lexeme.punctuator BinaryOp.pow.symbol = .punctuator "**" := rfl
    simp only
    rw [hnext, raised, if_pos hsymbol]
    simp [hexponent]
  refine ⟨⟨x, _, by rw [Expr.lexemes, hlexemes]; rfl, by simp [startsExpr, hstarts hleft],
    fun _ => hstarts hleft⟩, fun hside => ?_, fun hbinary => ?_, ?_, ?_⟩
  · cases hside
  · cases hbinary
  · intro k _ rest hrest
    exact operation_of_le (Nat.zero_le k) hpower hrest
  · intro k _ rest hrest
    exact climbs_of_power hpower k hrest

/-- A binary operation is read if its left operand has at most its tier and the
right one a lower tier. -/
theorem of_binary {op : BinaryOp} (hop : op ≠ .pow) (hl : IsRead l) (hr : IsRead r)
    (hleft : l.tier ≤ op.tier) (hright : r.tier < op.tier) : IsRead (.binary l op r) := by
  obtain ⟨k, hk⟩ : ∃ k, op.tier = k + 1 :=
    Nat.exists_eq_succ_of_ne_zero (BinaryOp.tier_ne_zero hop)
  have hclimb : ∀ rest, Ends k rest →
      (operation (k + 1) ((Expr.binary l op r).lexemes ++ rest)).result =
        (operations (k + 1) (.binary l op r) rest).result := by
    intro rest hrest
    have hends : Ends k (.punctuator op.symbol :: (r.lexemes ++ rest)) :=
      ends_operator (by omega) _
    have hfirst := hl.climbs k (hk ▸ hleft) _ hends
    have hsecond := hr.reads k (by omega) rest hrest
    rw [Expr.lexemes, List.append_assoc, List.cons_append, hfirst, operations, ← hk,
      binaryOp?_symbol]
    obtain ⟨-, hnext⟩ := Reading.result_andThen hsecond fun right ns _ =>
      operations op.tier (.binary l op right) ns
    simpa [hk] using hnext
  have hread : ∀ rest, Ends (k + 1) rest →
      (operation (k + 1) ((Expr.binary l op r).lexemes ++ rest)).result =
        some (.binary l op r, rest) := by
    intro rest hrest
    rw [hclimb rest (hrest.mono (Nat.le_succ k))]
    exact operations_of_ends hrest _
  obtain ⟨x, xs, hlexemes, hx, -⟩ := hl.starts
  refine ⟨⟨x, _, by rw [Expr.lexemes, hlexemes]; rfl, hx, fun hside => ?_⟩, fun hside => ?_,
    fun hbinary => ?_, ?_, ?_⟩
  · cases hside
  · cases hside
  · cases hbinary
  · intro j hj rest hrest
    exact operation_of_le (hk ▸ hj) hread hrest
  · intro j hj rest hrest
    rcases Nat.eq_or_lt_of_le hj with heq | hlt
    · obtain rfl : j = k := by
        rw [Expr.tier] at heq
        omega
      exact hclimb rest hrest
    · rw [Expr.tier] at hlt
      exact operation_succ (operation_of_le (by omega) hread hrest)

/-- What is read at the widest tier, before a lexeme that cannot go on. -/
theorem whole (h : IsRead t) {rest : List Lexeme} (hrest : Ends 6 rest) :
    (operation 6 (t.lexemes ++ rest)).result = some (t, rest) := by
  refine h.reads 6 ?_ rest hrest
  cases t with
  | binary l op r => exact op.tier_le
  | _ => exact Nat.zero_le 6

/-- What goes on after an operand that is no operation can be read if it is an
access to this operand. -/
theorem of_access {base : Expr} {ls : List Lexeme} (h : IsRead base)
    (hbase : base.isLeftHandSide = true) (hlexemes : t.lexemes = base.lexemes ++ ls)
    (haccess : ∀ rest, (accesses base (ls ++ rest)).result = (accesses t rest).result) :
    IsRead t := by
  obtain ⟨x, xs, hx, -, hstarts⟩ := h.starts
  refine of_leftHandSide ⟨x, xs ++ ls, by rw [hlexemes, hx]; rfl, hstarts hbase⟩ fun rest => ?_
  rw [hlexemes, List.append_assoc, h.leftHandSide hbase, haccess]

theorem of_member {base : Expr} {name : String} (h : IsRead base)
    (hbase : base.isLeftHandSide = true) : IsRead (.member base name) := by
  refine h.of_access hbase rfl fun rest => ?_
  have hfield : (field (.name name :: rest)).result = some (name, rest) := rfl
  obtain ⟨-, hnext⟩ := Reading.result_andThen hfield fun name ns _ =>
    accesses (.member base name) ns
  rw [List.cons_append, List.cons_append, List.nil_append, accesses, if_pos rfl]
  exact hnext

/-- A position may be any expression, since a bracket closes it. -/
theorem of_index {base position : Expr} (h : IsRead base) (hposition : IsRead position)
    (hbase : base.isLeftHandSide = true) : IsRead (.index base position) := by
  refine h.of_access hbase rfl fun rest => ?_
  have hread := hposition.whole (ends_closer (by decide) rest : Ends 6 (.punctuator "]" :: rest))
  have hclose : (expect "]" (.punctuator "]" :: rest)).result = some ((), rest) := rfl
  obtain ⟨-, hnext⟩ := Reading.result_andThen hread fun position ns _ =>
    (expect "]" ns).andThen fun _ os _ => accesses (.index base position) os
  obtain ⟨-, hlast⟩ := Reading.result_andThen hclose fun _ os _ =>
    accesses (.index base position) os
  rw [List.cons_append, List.append_assoc, List.cons_append, List.nil_append, accesses,
    if_neg (by decide), if_neg (by decide), if_pos rfl]
  exact hnext.trans hlast

end IsRead

/-! ### Elements and placeholders -/

theorem ends_moreListed {closing : String} (h : closing = ")" ∨ closing = "]")
    (codes : List (List Lexeme)) (rest : List Lexeme) :
    Ends 6 (moreListed closing codes ++ rest) := by
  cases codes with
  | nil =>
      refine ends_closer ?_ rest
      rcases h with rfl | rfl <;> decide
  | cons code codes => exact ends_closer (by decide) _

/-- Elements are read one by one: the first, and then what is read after it. -/
theorem elements_cons {closing : String} (h : closing = ")" ∨ closing = "]") {e : Expr}
    (he : IsRead e) {es : List Expr} {rest ls : List Lexeme} (hls : Ends 6 ls)
    (hmore : (moreElements closing ls).result = some (es, rest)) :
    (elements closing (e.lexemes ++ ls)).result = some (e :: es, rest) := by
  obtain ⟨x, xs, hlexemes, hx, -⟩ := he.starts
  have hne : x ≠ .punctuator closing := by
    rintro rfl
    rcases h with rfl | rfl <;> exact absurd hx (by decide)
  have hread := he.whole hls
  rw [hlexemes, List.cons_append] at hread ⊢
  obtain ⟨-, hnext⟩ := Reading.result_andThen hread fun e ns _ =>
    (moreElements closing ns).map (e :: ·)
  rw [elements, if_neg hne, hnext]
  simp [hmore]

/-- Elements are read back up to the bracket that closes them. -/
theorem moreElements_moreListed {closing : String} (h : closing = ")" ∨ closing = "]")
    {es : List Expr} (hes : ∀ e ∈ es, IsRead e) (rest : List Lexeme) :
    (moreElements closing (moreListed closing (Expr.lexemesAll es) ++ rest)).result =
      some (es, rest) := by
  induction es with
  | nil =>
      have hcomma : Lexeme.punctuator closing ≠ .punctuator "," := by
        rcases h with rfl | rfl <;> decide
      rw [Expr.lexemesAll, moreListed, List.cons_append, moreElements, if_neg hcomma, if_pos rfl]
      rfl
  | cons e es ih =>
      obtain ⟨he, hes⟩ := List.forall_mem_cons.1 hes
      rw [Expr.lexemesAll, moreListed, List.cons_append, moreElements, if_pos rfl,
        List.append_assoc]
      exact elements_cons h he (ends_moreListed h _ rest) (ih hes)

theorem elements_listed {closing : String} (h : closing = ")" ∨ closing = "]")
    {es : List Expr} (hes : ∀ e ∈ es, IsRead e) (rest : List Lexeme) :
    (elements closing (listed closing (Expr.lexemesAll es) ++ rest)).result = some (es, rest) := by
  cases es with
  | nil =>
      rw [Expr.lexemesAll, listed, List.cons_append, elements, if_pos rfl]
      rfl
  | cons e es =>
      obtain ⟨he, hes⟩ := List.forall_mem_cons.1 hes
      rw [Expr.lexemesAll, listed, List.append_assoc]
      exact elements_cons h he (ends_moreListed h _ rest) (moreElements_moreListed h hes rest)

theorem ends_chunks {quasis : List String} {codes : List (List Lexeme)}
    (h : quasis.length = codes.length + 1) (rest : List Lexeme) :
    Ends 6 (chunks false quasis codes ++ rest) := by
  match quasis, codes with
  | [], _ => cases h
  | quasi :: _, [] => exact ends_chunk false true quasi _
  | quasi :: _, _ :: _ => exact ends_chunk false false quasi _

theorem length_lexemesAll (es : List Expr) : (Expr.lexemesAll es).length = es.length := by
  induction es with
  | nil => rfl
  | cons e es ih => rw [Expr.lexemesAll, List.length_cons, List.length_cons, ih]

/-- A placeholder is read up to the next part of the template. -/
theorem placeholders_of_ends {e : Expr} (he : IsRead e) {ls : List Lexeme} (hls : Ends 6 ls) :
    (placeholders (e.lexemes ++ ls)).result = (afterPlaceholder e ls).result := by
  rw [placeholders]
  obtain ⟨-, hnext⟩ := Reading.result_andThen (he.whole hls) fun e ms _ => afterPlaceholder e ms
  exact hnext

/-- The placeholders of a template literal are read with the text pieces after
them. -/
theorem placeholders_chunks {es : List Expr} (hes : ∀ e ∈ es, IsRead e) {e : Expr}
    (he : IsRead e) {quasis : List String} (h : quasis.length = es.length + 1)
    (rest : List Lexeme) :
    (placeholders (e.lexemes ++ (chunks false quasis (Expr.lexemesAll es) ++ rest))).result =
      some ((quasis, e :: es), rest) := by
  have hends := ends_chunks (h.trans (by rw [length_lexemesAll])) rest
  rw [placeholders_of_ends he hends]
  induction es generalizing e quasis with
  | nil =>
      obtain ⟨quasi, rfl⟩ := List.length_eq_one_iff.1 h
      rw [Expr.lexemesAll, chunks, List.cons_append, afterPlaceholder]
      rfl
  | cons e' es ih =>
      obtain ⟨he', hes⟩ := List.forall_mem_cons.1 hes
      obtain ⟨quasi, quasis, rfl⟩ := List.exists_cons_of_length_eq_add_one h
      have hlength : quasis.length = es.length + 1 := Nat.succ.inj h
      have hends' := ends_chunks (hlength.trans (by rw [length_lexemesAll])) rest
      have hlater := ih hes he' hlength hends'
      rw [← placeholders_of_ends he' hends'] at hlater
      rw [Expr.lexemesAll, chunks, List.cons_append, List.append_assoc, afterPlaceholder]
      simp [hlater]

namespace IsRead

/-- A template is read back with its texts and its placeholders in turn. -/
theorem of_template {quasis : List String} {es : List Expr} (hes : ∀ e ∈ es, IsRead e)
    (h : quasis.length = es.length + 1) : IsRead (.template quasis es) := by
  obtain ⟨quasi, quasis, rfl⟩ := List.exists_cons_of_length_eq_add_one h
  cases es with
  | nil =>
      obtain rfl := List.length_eq_zero_iff.1 (Nat.succ.inj h)
      refine of_primary ⟨_, _, rfl, rfl⟩ fun rest => ?_
      rw [Expr.lexemes, Expr.lexemesAll, chunks, List.cons_append, primary]
      rfl
  | cons e es =>
      obtain ⟨he, hes⟩ := List.forall_mem_cons.1 hes
      refine of_primary ⟨_, _, rfl, rfl⟩ fun rest => ?_
      rw [Expr.lexemes, Expr.lexemesAll, chunks, List.cons_append, List.append_assoc, primary]
      simp [placeholders_chunks hes he (Nat.succ.inj h)]

theorem of_call {base : Expr} {args : List Expr} (h : IsRead base)
    (hargs : ∀ e ∈ args, IsRead e) (hbase : base.isLeftHandSide = true) :
    IsRead (.call base args) := by
  refine h.of_access hbase rfl fun rest => ?_
  have hread := elements_listed (.inl rfl : ")" = ")" ∨ _) hargs rest
  obtain ⟨-, hnext⟩ := Reading.result_andThen hread fun args ns _ => accesses (.call base args) ns
  rw [List.cons_append, accesses, if_neg (by decide), if_pos rfl]
  exact hnext

theorem of_array {items : List Expr} (hitems : ∀ e ∈ items, IsRead e) :
    IsRead (.array items) := by
  refine of_primary ⟨_, _, rfl, rfl⟩ fun rest => ?_
  rw [Expr.lexemes, List.cons_append, primary, if_neg (by decide), if_pos rfl]
  simp [elements_listed (.inr rfl : "]" = ")" ∨ _) hitems rest]

theorem of_paren {inner : Expr} (h : IsRead inner) : IsRead (.paren inner) := by
  refine of_primary ⟨_, _, rfl, rfl⟩ fun rest => ?_
  have hread := h.whole (ends_closer (by decide) rest : Ends 6 (.punctuator ")" :: rest))
  have hclose : (expect ")" (.punctuator ")" :: rest)).result = some ((), rest) := rfl
  obtain ⟨-, hnext⟩ := Reading.result_andThen hread fun inner ns _ =>
    (expect ")" ns).map fun _ => Expr.paren inner
  rw [Expr.lexemes, List.cons_append, List.append_assoc, List.cons_append, List.nil_append,
    primary, if_pos rfl]
  simp [hnext, hclose]

theorem of_named {e : Expr} {text : String} (hlexemes : e.lexemes = [.name text])
    (h : named? text = some e) : IsRead e := by
  refine of_primary ⟨_, _, hlexemes, rfl⟩ fun rest => ?_
  rw [hlexemes, List.cons_append, List.nil_append, primary, h]
  rfl

end IsRead

/-- A word that is not reserved is a name. -/
theorem named?_of_not_reserved {text : String} (h : reservedWords.contains text = false) :
    named? text = some (.name text) := by
  have hne {word : String} (hword : reservedWords.contains word = true) : text ≠ word := by
    intro heq
    rw [heq, hword] at h
    cases h
  rw [named?, if_neg (hne (by decide)), if_neg (hne (by decide)), if_neg (hne (by decide)), h]
  rfl

namespace Expr

mutual

/-- A tree whose operands stand where the tiers of the operators put them is read
from its lexemes. -/
theorem isRead_of_isOrdered : (t : Expr) → t.isOrdered = true → IsRead t
  | .name text, h => IsRead.of_named rfl (named?_of_not_reserved (by simpa [isOrdered] using h))
  | .number value, _ => by
      refine IsRead.of_primary ⟨_, _, rfl, rfl⟩ fun rest => ?_
      rw [lexemes, List.cons_append, List.nil_append, primary]
      rfl
  | .string value, _ => by
      refine IsRead.of_primary ⟨_, _, rfl, rfl⟩ fun rest => ?_
      rw [lexemes, List.cons_append, List.nil_append, primary]
      rfl
  | .boolean true, _ => IsRead.of_named rfl rfl
  | .boolean false, _ => IsRead.of_named rfl rfl
  | .null, _ => IsRead.of_named rfl rfl
  | .template quasis es, h => by
      obtain ⟨hlength, hes⟩ := Bool.and_eq_true_iff.1 h
      exact IsRead.of_template (areRead_of_areOrdered es hes) (of_decide_eq_true hlength)
  | .binary left op right, h => by
      obtain ⟨htakes, hparts⟩ := Bool.and_eq_true_iff.1 h
      obtain ⟨hleft, hright⟩ := Bool.and_eq_true_iff.1 hparts
      have hl := isRead_of_isOrdered left hleft
      have hr := isRead_of_isOrdered right hright
      unfold takes at htakes
      split at htakes
      · rename_i hop
        subst hop
        obtain ⟨hside, htier⟩ := Bool.and_eq_true_iff.1 htakes
        exact hl.of_pow hr hside (of_decide_eq_true htier)
      · rename_i hop
        obtain ⟨hle, hlt⟩ := Bool.and_eq_true_iff.1 htakes
        exact IsRead.of_binary hop hl hr (of_decide_eq_true hle) (of_decide_eq_true hlt)
  | .unary op operand, h => by
      obtain ⟨hbinary, hoperand⟩ := Bool.and_eq_true_iff.1 h
      exact (isRead_of_isOrdered operand hoperand).of_unary (by simpa using hbinary)
  | .member value _, h => by
      obtain ⟨hside, hvalue⟩ := Bool.and_eq_true_iff.1 h
      exact (isRead_of_isOrdered value hvalue).of_member hside
  | .call callee args, h => by
      obtain ⟨hcallee, hargs⟩ := Bool.and_eq_true_iff.1 h
      obtain ⟨hside, hcallee⟩ := Bool.and_eq_true_iff.1 hcallee
      exact (isRead_of_isOrdered callee hcallee).of_call (areRead_of_areOrdered args hargs) hside
  | .index target position, h => by
      obtain ⟨htarget, hposition⟩ := Bool.and_eq_true_iff.1 h
      obtain ⟨hside, htarget⟩ := Bool.and_eq_true_iff.1 htarget
      exact (isRead_of_isOrdered target htarget).of_index
        (isRead_of_isOrdered position hposition) hside
  | .array items, h => IsRead.of_array (areRead_of_areOrdered items h)
  | .paren inner, h => (isRead_of_isOrdered inner h).of_paren

theorem areRead_of_areOrdered : (es : List Expr) → areOrdered es = true → ∀ e ∈ es, IsRead e
  | [], _ => by simp
  | e :: es, h => by
      obtain ⟨he, hes⟩ := Bool.and_eq_true_iff.1 h
      exact List.forall_mem_cons.2 ⟨isRead_of_isOrdered e he, areRead_of_areOrdered es hes⟩

end

end Expr

end Offside.Target
