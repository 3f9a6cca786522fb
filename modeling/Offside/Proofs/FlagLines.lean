import Offside.Target.Stmt

/-!
# Offside.Proofs.FlagLines

The **lines of flags** in generated code. Code declares flags before loops and
clears them before jumps. Main statement: `Stmt.addsFlags_blockLines`, by which the
lines of such code are those of the code without its flags, with one line more for
each declaration, directly before the line that opens its loop, and one for each
flag that is cleared, directly before its `break`.
-/

namespace Offside

/-! ### Flags in generated code -/

namespace Target.Stmt

/-- The header of the loop that code starts with. -/
def firstHeader? : List Stmt → Option LoopHeader
  | .loop header _ :: _ => some header
  | _ => none

mutual

/-- The flags that are declared in the blocks of a statement. -/
def innerDeclarations : Stmt → List (String × Option LoopHeader)
  | .loop _ body | .ifFlag _ body | .function _ _ body | .method _ _ body | .classDef _ body =>
    declarations body
  | .ifElse _ body alternate => declarations body ++ alternateDeclarations alternate
  | _ => []

/-- The flags that are declared in the rest of a conditional. -/
def alternateDeclarations : Alternate → List (String × Option LoopHeader)
  | .none => []
  | .elseIf _ body alternate => declarations body ++ alternateDeclarations alternate
  | .otherwise body => declarations body

/-- The flags that code declares, in the order of the declarations, each with the
header of the loop that comes directly after its declaration. -/
def declarations : List Stmt → List (String × Option LoopHeader)
  | [] => []
  | .setFlag flag :: ss => (flag, firstHeader? ss) :: declarations ss
  | s :: ss => innerDeclarations s ++ declarations ss

end

mutual

/-- The jumps in a statement, other than a loop with a flag, clear what they
should. -/
def innerClears (own : Option String) : Stmt → Bool
  | .loop _ body | .function _ _ body | .method _ _ body | .classDef _ body => clears none body
  | .ifFlag _ body => clears own body
  | .ifElse _ body alternate => clears own body && alternateClears own alternate
  | _ => true

/-- The jumps in the rest of a conditional clear what they should. -/
def alternateClears (own : Option String) : Alternate → Bool
  | .none => true
  | .elseIf _ body alternate => clears own body && alternateClears own alternate
  | .otherwise body => clears own body

/-- Each `break` clears the flag of the innermost loop around it, which for code
outside of all loops is `own`, right before it leaves that loop, and no flag is
cleared elsewhere. A loop has the flag that is declared directly before it, and a
`break` of a loop without a flag clears none. A function or a class has loops of
its own only. -/
def clears (own : Option String) : List Stmt → Bool
  | [] => true
  | .setFlag flag :: .loop _ body :: ss => clears (some flag) body && clears own ss
  | .clearFlag flag :: .breakLoop :: ss => own = some flag && clears own ss
  | .clearFlag _ :: _ => false
  | .breakLoop :: ss => own = none && clears own ss
  | s :: ss => innerClears own s && clears own ss

end

mutual

/-- The flags that are cleared in the blocks of a statement. -/
def innerClearings : Stmt → List String
  | .loop _ body | .ifFlag _ body | .function _ _ body | .method _ _ body | .classDef _ body =>
    clearings body
  | .ifElse _ body alternate => clearings body ++ alternateClearings alternate
  | _ => []

/-- The flags that are cleared in the rest of a conditional. -/
def alternateClearings : Alternate → List String
  | .none => []
  | .elseIf _ body alternate => clearings body ++ alternateClearings alternate
  | .otherwise body => clearings body

/-- The flags that code clears, once for each time that it does and in the order of
the code. -/
def clearings : List Stmt → List String
  | [] => []
  | .clearFlag flag :: ss => flag :: clearings ss
  | s :: ss => innerClearings s ++ clearings ss

end

mutual

/-- A statement without the flags in its blocks. -/
def innerWithoutFlags : Stmt → Stmt
  | .loop header body => .loop header (withoutFlags body)
  | .ifFlag flag body => .ifFlag flag (withoutFlags body)
  | .function name params body => .function name params (withoutFlags body)
  | .method name params body => .method name params (withoutFlags body)
  | .classDef name body => .classDef name (withoutFlags body)
  | .ifElse condition body alternate =>
    .ifElse condition (withoutFlags body) (alternateWithoutFlags alternate)
  | s => s

/-- The rest of a conditional without the flags in its blocks. -/
def alternateWithoutFlags : Alternate → Alternate
  | .none => .none
  | .elseIf condition body alternate =>
    .elseIf condition (withoutFlags body) (alternateWithoutFlags alternate)
  | .otherwise body => .otherwise (withoutFlags body)

/-- Code without the statements that declare or clear flags. -/
def withoutFlags : List Stmt → List Stmt
  | [] => []
  | .setFlag _ :: ss | .clearFlag _ :: ss => withoutFlags ss
  | s :: ss => innerWithoutFlags s :: withoutFlags ss

end

end Target.Stmt

/-! ### Lines with and without flags

The relation adds lines one at a time. A declaration needs the line of its loop
behind it, and a flag is cleared only in front of a `break`.
-/

namespace Target

/-- The second lines are the first ones with a line more for each of the declared flags
and each of the cleared ones, in this order. -/
inductive AddsFlags : List Line → List (String × Option LoopHeader) → List String →
    List Line → Prop where
  | nil : AddsFlags [] [] [] []
  | cons {plain lines : List Line} {declared : List (String × Option LoopHeader)}
      {cleared : List String} (l : Line) :
      AddsFlags plain declared cleared lines →
      AddsFlags (l :: plain) declared cleared (l :: lines)
  | declares {plain lines : List Line} {declared : List (String × Option LoopHeader)}
      {cleared : List String} (flag : String) (header : LoopHeader) (depth : Nat) :
      AddsFlags plain declared cleared lines →
      AddsFlags (openLine depth header.render :: plain) ((flag, some header) :: declared) cleared
        (⟨depth, "let " ++ flag ++ " = true;"⟩ :: openLine depth header.render :: lines)
  | clears {plain lines : List Line} {declared : List (String × Option LoopHeader)}
      {cleared : List String} (flag : String) (depth : Nat) :
      AddsFlags plain declared cleared lines →
      AddsFlags (⟨depth, "break;"⟩ :: plain) declared (flag :: cleared)
        (⟨depth, flag ++ " = false;"⟩ :: ⟨depth, "break;"⟩ :: lines)

namespace AddsFlags

variable {plain plain' lines lines' : List Line} {cleared cleared' : List String}
  {declared declared' : List (String × Option LoopHeader)}

theorem refl (ls : List Line) : AddsFlags ls [] [] ls := by
  induction ls with
  | nil => exact .nil
  | cons l ls ih => exact ih.cons l

theorem append (h : AddsFlags plain declared cleared lines)
    (h' : AddsFlags plain' declared' cleared' lines') :
    AddsFlags (plain ++ plain') (declared ++ declared') (cleared ++ cleared')
      (lines ++ lines') := by
  induction h with
  | nil => exact h'
  | cons l _ ih => exact ih.cons l
  | declares flag header depth _ ih => exact ih.declares flag header depth
  | clears flag depth _ ih => exact ih.clears flag depth

/-- Lines that come after all flags. -/
theorem append_right (h : AddsFlags plain declared cleared lines) (after : List Line) :
    AddsFlags (plain ++ after) declared cleared (lines ++ after) := by
  simpa using h.append (.refl after)

/-- A block has a line of its own for a flag only if it has other lines too. -/
theorem orBlankLine (h : AddsFlags plain declared cleared lines) :
    AddsFlags (orBlankLine plain) declared cleared (orBlankLine lines) := by
  cases h with
  | nil => exact .refl _
  | cons l h => exact h.cons l
  | declares flag header depth h => exact h.declares flag header depth
  | clears flag depth h => exact h.clears flag depth

end AddsFlags

namespace Stmt

/-- The declarations among `ds` stand before loops. -/
def StandBeforeLoops (ds : List (String × Option LoopHeader)) : Prop := ∀ d ∈ ds, d.2.isSome

/-- A statement that neither declares nor clears a flag. -/
def isPlain : Stmt → Bool
  | .setFlag _ | .clearFlag _ => false
  | _ => true

theorem addsFlags_cons {own : Option String} {depth : Nat} {s : Stmt} {ss : List Stmt}
    (hs : s.isPlain = true)
    (hfirst : innerClears own s = true → StandBeforeLoops (innerDeclarations s) →
      AddsFlags (lines depth (innerWithoutFlags s)) (innerDeclarations s) (innerClearings s)
        (lines depth s))
    (hrest : clears own ss = true → StandBeforeLoops (declarations ss) →
      AddsFlags (blockLines depth (withoutFlags ss)) (declarations ss) (clearings ss)
        (blockLines depth ss))
    (hclears : clears own (s :: ss) = true) (hloops : StandBeforeLoops (declarations (s :: ss))) :
    AddsFlags (blockLines depth (withoutFlags (s :: ss))) (declarations (s :: ss))
      (clearings (s :: ss)) (blockLines depth (s :: ss)) := by
  have hparts : innerClears own s = true ∧ clears own ss = true ∧
      declarations (s :: ss) = innerDeclarations s ++ declarations ss ∧
      clearings (s :: ss) = innerClearings s ++ clearings ss ∧
      withoutFlags (s :: ss) = innerWithoutFlags s :: withoutFlags ss := by
    cases s with
    | setFlag | clearFlag => cases hs
    | breakLoop => exact ⟨rfl, (Bool.and_eq_true_iff.1 hclears).2, rfl, rfl, rfl⟩
    | _ =>
        obtain ⟨hinner, hnext⟩ := Bool.and_eq_true_iff.1 hclears
        exact ⟨hinner, hnext, rfl, rfl, rfl⟩
  obtain ⟨hinner, hnext, hdeclared, hcleared, hplain⟩ := hparts
  rw [hdeclared] at hloops ⊢
  obtain ⟨hloop, hloops'⟩ := List.forall_mem_append.1 hloops
  rw [hcleared, hplain]
  exact (hfirst hinner hloop).append (hrest hnext hloops')

mutual

theorem addsFlags_lines {own : Option String} (depth : Nat) (s : Stmt)
    (hclears : innerClears own s = true) (hloops : StandBeforeLoops (innerDeclarations s)) :
    AddsFlags (lines depth (innerWithoutFlags s)) (innerDeclarations s) (innerClearings s)
      (lines depth s) := by
  match s with
  | .loop _ body | .ifFlag _ body | .function _ _ body | .method _ _ body | .classDef _ body =>
      exact ((addsFlags_blockLines (depth + 1) body hclears hloops).orBlankLine.append_right
        [closeLine depth]).cons _
  | .ifElse _ body alternate =>
      obtain ⟨hbody, halternate⟩ := Bool.and_eq_true_iff.1 hclears
      obtain ⟨hinner, hrest⟩ := List.forall_mem_append.1 hloops
      exact ((addsFlags_blockLines (depth + 1) body hbody hinner).orBlankLine.append
        (addsFlags_alternateLines depth alternate halternate hrest)).cons _
  | .assign .. | .staticField .. | .update .. | .expr _ | .returnValue _ | .breakLoop
  | .continueLoop | .empty | .importNote _ | .unsupported _ | .setFlag _ | .clearFlag _ =>
      exact .refl _

theorem addsFlags_alternateLines {own : Option String} (depth : Nat) (a : Alternate)
    (hclears : alternateClears own a = true)
    (hloops : StandBeforeLoops (alternateDeclarations a)) :
    AddsFlags (alternateLines depth (alternateWithoutFlags a)) (alternateDeclarations a)
      (alternateClearings a) (alternateLines depth a) := by
  match a with
  | .none => exact .refl _
  | .elseIf _ body alternate =>
      obtain ⟨hbody, halternate⟩ := Bool.and_eq_true_iff.1 hclears
      obtain ⟨hinner, hrest⟩ := List.forall_mem_append.1 hloops
      exact ((addsFlags_blockLines (depth + 1) body hbody hinner).orBlankLine.append
        (addsFlags_alternateLines depth alternate halternate hrest)).cons _
  | .otherwise body =>
      exact ((addsFlags_blockLines (depth + 1) body hclears hloops).orBlankLine.append_right
        [closeLine depth]).cons _

/-- **Flags add just their own lines.** -/
theorem addsFlags_blockLines {own : Option String} (depth : Nat) (code : List Stmt)
    (hclears : clears own code = true) (hloops : StandBeforeLoops (declarations code)) :
    AddsFlags (blockLines depth (withoutFlags code)) (declarations code) (clearings code)
      (blockLines depth code) := by
  match code with
  | [] => exact .nil
  | s :: ss =>
      have hfirst := @addsFlags_lines own depth s
      have hrest := @addsFlags_blockLines own depth ss
      cases s with
      | setFlag flag =>
          -- The jumps of the loop belong to its flag, so the two are one case.
          match ss with
          | [] => simp [StandBeforeLoops, declarations, firstHeader?] at hloops
          | t :: ss =>
              cases t with
              | loop header body =>
                  obtain ⟨hbody, hnext⟩ := Bool.and_eq_true_iff.1 hclears
                  obtain ⟨-, hloops'⟩ := List.forall_mem_cons.1 hloops
                  obtain ⟨hinner, hlater⟩ := List.forall_mem_append.1 hloops'
                  have hblock := addsFlags_blockLines (depth + 1) body hbody hinner
                  have hloop := hblock.orBlankLine.append_right [closeLine depth]
                  exact (hloop.append (addsFlags_blockLines depth ss hnext hlater)).declares flag
                    header depth
              | _ => simp [StandBeforeLoops, declarations, firstHeader?] at hloops
      | clearFlag flag =>
          match ss with
          | [] => cases hclears
          | t :: ss =>
              cases t with
              | breakLoop =>
                  obtain ⟨-, hnext⟩ := Bool.and_eq_true_iff.1 hclears
                  exact (addsFlags_blockLines depth ss hnext hloops).clears flag depth
              | _ => cases hclears
      | _ => exact addsFlags_cons rfl hfirst hrest hclears hloops

end

end Stmt

end Target

end Offside
