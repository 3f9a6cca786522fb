import Offside.Proofs.Scan
import Offside.Token.Layout

/-!
# Offside.Proofs.Layout

The layout works **line by line**. What it writes up to a line end does not
depend on what comes after it; all that it hands on is the line and the open
blocks (`layout_append_newline`).
-/

namespace Offside.Token

theorem layout_cons {l : Lexeme} (h : l ≠ .newline) (line : Nat) (blocks : List Nat)
    (ls : List Lexeme) :
    layout line blocks (l :: ls) = (l.token? line).toList ++ layout line blocks ls := by
  rw [layout]
  exact h

/-- The tokens from the start of a line on: what its column does to the open
blocks, and the tokens in them. -/
def lineOn (line : Nat) (blocks : List Nat) (ls : List Lexeme) : List Token :=
  (shiftAt line ls blocks).1 ++ layout line (shiftAt line ls blocks).2 ls

theorem layout_newline (line : Nat) (blocks : List Nat) (ls : List Lexeme) :
    layout line blocks (.newline :: ls) = newline line :: lineOn (line + 1) blocks ls := by
  rw [layout]
  rfl

/-- The column of a line is found before its end. -/
theorem column?_append_newline (ls ms : List Lexeme) :
    column? (ls ++ .newline :: ms) = column? ls := by
  match ls with
  | [] => rfl
  | [l] => cases l <;> simp [column?, restIsBare]
  | l :: m :: ls => cases l <;> cases m <;> rfl

theorem shiftAt_append_newline (line : Nat) (blocks : List Nat) (ls ms : List Lexeme) :
    shiftAt line (ls ++ .newline :: ms) blocks = shiftAt line ls blocks := by
  rw [shiftAt, shiftAt, column?_append_newline]

theorem countP_newline_token? (l : Lexeme) (line : Nat) :
    (l.token? line).toList.countP (·.kind = .newline) = 0 := by
  cases l with
  | quoted marker _ _ => cases marker <;> rfl
  | word letters => simp only [Lexeme.token?]; split <;> rfl
  | _ => rfl

theorem countP_newline_shiftAt (line : Nat) (ls : List Lexeme) (blocks : List Nat) :
    (shiftAt line ls blocks).1.countP (·.kind = .newline) = 0 := by
  unfold shiftAt
  split
  · unfold shift
    split
    · rfl
    · simp [List.countP_map, dedent]
  · rfl

/-- The tokens of a program's lexemes inside the given blocks, and the blocks
that are open after them. -/
def openLayout (line : Nat) (blocks : List Nat) : List Lexeme → List Token × List Nat
  | [] => ([], blocks)
  | .newline :: ls =>
    let (shifts, inner) := shiftAt (line + 1) ls blocks
    let (ts, last) := openLayout (line + 1) inner ls
    (newline line :: (shifts ++ ts), last)
  | l :: ls =>
    let (ts, last) := openLayout line blocks ls
    ((l.token? line).toList ++ ts, last)

theorem openLayout_cons {l : Lexeme} (h : l ≠ .newline) (line : Nat) (blocks : List Nat)
    (ls : List Lexeme) :
    openLayout line blocks (l :: ls) =
      ((l.token? line).toList ++ (openLayout line blocks ls).1, (openLayout line blocks ls).2) := by
  rw [openLayout]
  exact h

theorem openLayout_newline (line : Nat) (blocks : List Nat) (ls : List Lexeme) :
    openLayout line blocks (.newline :: ls) =
      (newline line :: ((shiftAt (line + 1) ls blocks).1 ++
          (openLayout (line + 1) (shiftAt (line + 1) ls blocks).2 ls).1),
        (openLayout (line + 1) (shiftAt (line + 1) ls blocks).2 ls).2) := by
  rw [openLayout]

theorem countP_newline_openLayout (line : Nat) (blocks : List Nat) (ls : List Lexeme) :
    (openLayout line blocks ls).1.countP (·.kind = .newline) = ls.count .newline := by
  induction ls generalizing line blocks with
  | nil => rfl
  | cons l ls ih =>
      by_cases hl : l = .newline
      · subst hl
        rw [openLayout_newline]
        simp [newline, countP_newline_shiftAt, ih]
      · rw [openLayout_cons hl, List.countP_append, countP_newline_token?, ih,
          List.count_cons_of_ne hl, Nat.zero_add]

/-- At the end of the source, the open blocks are closed. -/
theorem layout_eq (line : Nat) (blocks : List Nat) (ls : List Lexeme) :
    layout line blocks ls = (openLayout line blocks ls).1 ++
      (openLayout line blocks ls).2.map (dedent (line + ls.count .newline)) := by
  induction ls generalizing line blocks with
  | nil => rfl
  | cons l ls ih =>
      by_cases hl : l = .newline
      · subst hl
        rw [layout_newline, lineOn, ih, openLayout_newline, List.count_cons_self]
        simp [Nat.add_comm, Nat.add_left_comm]
      · rw [layout_cons hl, ih, openLayout_cons hl, List.count_cons_of_ne hl, List.append_assoc]

/-- At a line end, the open blocks are handed on. -/
theorem layout_append_newline (line : Nat) (blocks : List Nat) (ls ms : List Lexeme) :
    layout line blocks (ls ++ .newline :: ms) =
      (openLayout line blocks ls).1 ++ newline (line + ls.count .newline) ::
        lineOn (line + ls.count .newline + 1) (openLayout line blocks ls).2 ms := by
  induction ls generalizing line blocks with
  | nil => exact layout_newline line blocks ms
  | cons l ls ih =>
      by_cases hl : l = .newline
      · subst hl
        -- The column of the line that starts here does not depend on `ms`.
        rw [List.cons_append, layout_newline, lineOn, shiftAt_append_newline, ih,
          openLayout_newline, List.count_cons_self]
        simp [Nat.add_comm, Nat.add_left_comm]
      · rw [List.cons_append, layout_cons hl, ih, openLayout_cons hl, List.count_cons_of_ne hl,
          List.append_assoc]

/-- A blank line is a line end more. -/
theorem lineOn_blankLine {l : List Char} (h : Lexeme.IsBlankLine l) (line : Nat)
    (blocks : List Nat) (ms : List Lexeme) :
    lineOn line blocks (Lexeme.scan l ++ .newline :: ms) =
      newline line :: lineOn (line + 1) blocks ms := by
  obtain ⟨blank, comment, hscan, hblank, hcomment⟩ := Lexeme.scan_isBlankLine h
  have hcolumn : column? (Lexeme.scan l ++ .newline :: ms) = none := by
    rw [hscan]
    rcases hblank with rfl | ⟨run, rfl⟩ <;> rcases hcomment with rfl | ⟨text, rfl⟩ <;>
      simp [column?, restIsBare]
  have hlayout : layout line blocks (Lexeme.scan l ++ .newline :: ms) =
      layout line blocks (.newline :: ms) := by
    rw [hscan]
    rcases hblank with rfl | ⟨run, rfl⟩ <;> rcases hcomment with rfl | ⟨text, rfl⟩ <;> rfl
  rw [lineOn, shiftAt, hcolumn]
  exact hlayout.trans (layout_newline line blocks ms)

end Offside.Token
