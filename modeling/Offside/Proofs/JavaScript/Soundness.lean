import Offside.Proofs.JavaScript.Reading

/-!
# Offside.Proofs.JavaScript.Soundness

**A tree is read only from its own lexemes** (`Expr.lexemes_of_read`), so what is
read says how the text was written, parentheses included. Commas and template
literals are left out: a comma may also stand before a closing bracket, and then it
belongs to no tree.

Reading holds a left operand without knowing what comes next, so the statement is
about the lexemes of that operand together with those still to be read (`Spells`).
-/

namespace Offside.Target

/-- A lexeme is no comma and no piece of a template literal. -/
def Lexeme.isFlat : Lexeme → Bool
  | .punctuator symbol => symbol ≠ ","
  | .chunk .. => false
  | _ => true

/-- None of the lexemes is a comma or a piece of a template literal. -/
def AreFlat (ls : List Lexeme) : Prop := ∀ x ∈ ls, x.isFlat = true

theorem AreFlat.right {ls ms : List Lexeme} (h : AreFlat (ls ++ ms)) : AreFlat ms :=
  fun x hx => h x (List.mem_append_right ls hx)

/-! ### Steps of a reading

A reading is put together from a few steps. Each of them keeps `Spells`, with what has
been read before it carried along.
-/

namespace Reading

variable {j k : Nat} {ls before : List Lexeme} {α β : Type} {spelling : α → List Lexeme}
  {spelling' : β → List Lexeme}

/-- What is read is spelled by the lexemes `before` the reading and by those that the
reading takes. -/
def Spells (before : List Lexeme) (spelling : α → List Lexeme) (r : Reading k ls α) : Prop :=
  AreFlat (before ++ ls) →
    ∀ a rest, r.result = some (a, rest) → before ++ ls = spelling a ++ rest

/-- A reading that is done spells what was before it. -/
theorem Spells.done {a : α} (h : before = spelling a) :
    (done a : Reading 0 ls α).Spells before spelling := by
  rintro - _ _ ⟨⟩
  rw [h]

theorem Spells.fail : (fail : Reading k ls α).Spells before spelling := by
  rintro - _ _ ⟨⟩

/-- A consumed lexeme is part of what has been spelled. -/
theorem Spells.consume {x : Lexeme} {r : Reading k ls α} (h : r.Spells (before ++ [x]) spelling) :
    (consume x r).Spells before spelling := by
  intro hflat a rest hr
  have hread := h (by simpa using hflat) a rest hr
  simpa using hread

theorem Spells.loosen {r : Reading k ls α} (h : r.Spells before spelling) :
    r.loosen.Spells before spelling := h

/-- A result may be put in a larger tree whose lexemes go on from those before it. -/
theorem Spells.map {f : α → β} {r : Reading k ls α} (h : r.Spells [] spelling)
    (hf : ∀ a, before ++ spelling a = spelling' (f a)) : (r.map f).Spells before spelling' := by
  intro hflat b rest hb
  obtain ⟨⟨a, rest'⟩, hr, heq⟩ := Option.map_eq_some_iff.1 hb
  cases heq
  have hread := h hflat.right a rest hr
  rw [List.nil_append] at hread
  rw [hread, ← List.append_assoc, hf a]

/-- **One reading after the other** spells the lexemes of the first and then those
of the second. -/
theorem Spells.andThen {r : Reading k ls α}
    {f : α → (ms : List Lexeme) → ms.length + k ≤ ls.length → Reading j ms β}
    (h : r.Spells [] spelling)
    (hf : ∀ a ms hle, (f a ms hle).Spells (before ++ spelling a) spelling') :
    (r.andThen f).Spells before spelling' := by
  intro hflat b rest hb
  obtain ⟨result, progress⟩ := r
  match result with
  | none => cases hb
  | some (a, ms) =>
      have hread := h hflat.right a ms rfl
      rw [List.nil_append] at hread
      rw [hread, ← List.append_assoc] at hflat ⊢
      exact hf a ms _ hflat b rest hb

end Reading

open Reading (Spells)

/-! ### Leaves -/

theorem expect_spells (symbol : String) (ls : List Lexeme) :
    (expect symbol ls).Spells [] fun _ => [.punctuator symbol] := by
  unfold expect
  split
  · exact .fail
  · split
    · rename_i hx
      exact .consume (.done (by rw [hx]; rfl))
    · exact .fail

theorem field_spells (ls : List Lexeme) : (field ls).Spells [] fun text => [.name text] := by
  unfold field
  split
  · exact .consume (.done rfl)
  · exact .fail

/-- A word is read as the tree that is spelled by it, be it a name or a constant. -/
theorem lexemes_of_named? {text : String} {e : Expr} (h : named? text = some e) :
    e.lexemes = [.name text] := by
  unfold named? at h
  split at h
  · rename_i htext
    cases h
    rw [htext]
    rfl
  split at h
  · rename_i htext
    cases h
    rw [htext]
    rfl
  split at h
  · rename_i htext
    cases h
    rw [htext]
    rfl
  split at h
  · cases h
  · cases h
    rfl

/-- Behind an element comes the closing mark, where there are no commas. -/
theorem moreElements_spells (closing : String) (ls : List Lexeme) :
    (moreElements closing ls).Spells [] fun es => moreListed closing (Expr.lexemesAll es) := by
  cases ls with
  | nil =>
      rw [moreElements]
      exact .fail
  | cons x ms =>
      rw [moreElements]
      split
      · rename_i hx
        intro hflat
        have hcomma := hflat x (by simp)
        rw [hx] at hcomma
        cases hcomma
      · split
        · rename_i hx
          exact .consume (.done (by rw [hx]; rfl))
        · exact .fail

/-! ### Expressions

One statement for each function of the reader, by the reader's own recursion. Those
that go on from a tree have its lexemes before them.
-/

/-- An operator is read from its own symbol. -/
theorem eq_symbol_of_binaryOp? {tier : Nat} {x : Lexeme} {op : BinaryOp}
    (h : binaryOp? tier x = some op) : x = .punctuator op.symbol := by
  have hfound := List.find?_some h
  simp only [decide_eq_true_eq] at hfound
  exact hfound.2

theorem eq_symbol_of_unaryOp? {x : Lexeme} {op : UnaryOp} (h : unaryOp? x = some op) :
    x = .punctuator op.symbol := by
  have hfound := List.find?_some h
  simpa using hfound

mutual

/-- **What the reader gives spells what it has read**, for operations of each tier
and for all that they are made of. -/
theorem operation_spells (tier : Nat) (ls : List Lexeme) :
    (operation tier ls).Spells [] Expr.lexemes := by
  match tier with
  | 0 =>
      rw [operation]
      exact power_spells ls
  | tier + 1 =>
      rw [operation]
      exact (operation_spells tier ls).andThen fun left ms _ => operations_spells (tier + 1) left ms
termination_by 16 * ls.length + tier + 6
decreasing_by all_goals grind

/-- The operations after a left operand, which has been read already. -/
theorem operations_spells (tier : Nat) (left : Expr) (ls : List Lexeme) :
    (operations tier left ls).Spells left.lexemes Expr.lexemes := by
  match ls with
  | [] =>
      rw [operations]
      exact .done rfl
  | x :: ms =>
      rw [operations]
      split
      · exact .done rfl
      · rename_i op hop
        refine .loosen (.consume ((operation_spells (tier - 1) ms).andThen fun right ns _ => ?_))
        have hnext := operations_spells tier (.binary left op right) ns
        simpa [Expr.lexemes, eq_symbol_of_binaryOp? hop] using hnext
termination_by 16 * ls.length + tier
decreasing_by all_goals grind

theorem power_spells (ls : List Lexeme) : (power ls).Spells [] Expr.lexemes := by
  match ls with
  | [] =>
      rw [power]
      exact .fail
  | x :: ms =>
      rw [power]
      split
      · exact unary_spells (x :: ms)
      · exact (leftHandSide_spells (x :: ms)).andThen fun base ns _ => raised_spells base ns
termination_by 16 * ls.length + 5
decreasing_by all_goals grind

/-- The exponent after a base that has been read already. -/
theorem raised_spells (base : Expr) (ls : List Lexeme) :
    (raised base ls).Spells base.lexemes Expr.lexemes := by
  match ls with
  | [] =>
      rw [raised]
      exact .done rfl
  | x :: ms =>
      rw [raised]
      split
      · rename_i hx
        refine .loosen (.consume ((power_spells ms).map fun e => ?_))
        rw [hx]
        simp [Expr.lexemes, BinaryOp.symbol]
      · exact .done rfl
termination_by 16 * ls.length
decreasing_by all_goals grind

theorem unary_spells (ls : List Lexeme) : (unary ls).Spells [] Expr.lexemes := by
  match ls with
  | [] =>
      rw [unary]
      exact .fail
  | x :: ms =>
      rw [unary]
      split
      · rename_i op hop
        refine .consume ((unary_spells ms).map fun e => ?_)
        rw [eq_symbol_of_unaryOp? hop]
        rfl
      · exact leftHandSide_spells (x :: ms)
termination_by 16 * ls.length + 4
decreasing_by all_goals grind

theorem leftHandSide_spells (ls : List Lexeme) : (leftHandSide ls).Spells [] Expr.lexemes := by
  rw [leftHandSide]
  exact (primary_spells ls).andThen fun base ms _ => accesses_spells base ms
termination_by 16 * ls.length + 3
decreasing_by all_goals grind

/-- The accesses after a base that has been read already. -/
theorem accesses_spells (base : Expr) (ls : List Lexeme) :
    (accesses base ls).Spells base.lexemes Expr.lexemes := by
  match ls with
  | [] =>
      rw [accesses]
      exact .done rfl
  | x :: ms =>
      rw [accesses]
      split
      · rename_i hx
        refine .loosen (.consume ((field_spells ms).andThen fun name ns _ => ?_))
        have hnext := accesses_spells (.member base name) ns
        simpa [Expr.lexemes, hx] using hnext
      split
      · rename_i hx
        refine .loosen (.consume ((elements_spells ")" ms).andThen fun args ns _ => ?_))
        have hnext := accesses_spells (.call base args) ns
        simpa [Expr.lexemes, hx] using hnext
      split
      · rename_i hx
        refine .loosen (.consume ((operation_spells 6 ms).andThen fun position ns _ => ?_))
        refine (expect_spells "]" ns).andThen fun _ os _ => ?_
        have hnext := accesses_spells (.index base position) os
        simpa [Expr.lexemes, hx] using hnext
      · exact .done rfl
termination_by 16 * ls.length
decreasing_by all_goals grind

theorem primary_spells (ls : List Lexeme) : (primary ls).Spells [] Expr.lexemes := by
  match ls with
  | [] =>
      rw [primary]
      exact .fail
  | .name text :: ms =>
      rw [primary]
      split
      · rename_i e hnamed
        exact .consume (.done (lexemes_of_named? hnamed).symm)
      · exact .fail
  | .number value :: ms =>
      rw [primary]
      exact .consume (.done rfl)
  | .string value :: ms =>
      rw [primary]
      exact .consume (.done rfl)
  | .chunk begins ends text :: ms =>
      intro hflat
      cases hflat (.chunk begins ends text) (by simp)
  | .punctuator symbol :: ms =>
      rw [primary]
      split
      · rename_i hsymbol
        refine .consume ((operation_spells 6 ms).andThen fun inner ns _ => ?_)
        refine (expect_spells ")" ns).map fun _ => ?_
        simp [Expr.lexemes, hsymbol]
      split
      · rename_i hsymbol
        refine .consume ((elements_spells "]" ms).map fun items => ?_)
        rw [hsymbol]
        rfl
      · exact .fail
termination_by 16 * ls.length + 2
decreasing_by all_goals grind

theorem elements_spells (closing : String) (ls : List Lexeme) :
    (elements closing ls).Spells [] fun es => listed closing (Expr.lexemesAll es) := by
  match ls with
  | [] =>
      rw [elements]
      exact .fail
  | x :: ms =>
      rw [elements]
      split
      · rename_i hx
        exact .consume (.done (by rw [hx]; rfl))
      · refine (operation_spells 6 (x :: ms)).andThen fun e ns _ => ?_
        exact (moreElements_spells closing ns).map fun es => rfl
termination_by 16 * ls.length + 13
decreasing_by all_goals grind

end

/-- A tree is read only from its own lexemes. -/
theorem Expr.lexemes_of_read {text : String} {t : Expr} {ls : List Lexeme}
    (hscan : Lexeme.scan 0 text.toList = some ls) (hflat : AreFlat ls)
    (h : read text = some t) : t.lexemes = ls := by
  rw [read, hscan, Option.bind_some] at h
  split at h
  · rename_i e hread
    cases h
    have hspells := operation_spells 6 ls hflat t [] hread
    rw [List.nil_append, List.append_nil] at hspells
    exact hspells.symm
  · cases h

end Offside.Target
