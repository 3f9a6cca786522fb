import Offside.Proofs.FlagLines
import Offside.Proofs.LoopElse

/-!
# Offside.Proofs.Flags

The flags of **all that one writer writes**. Main statement: `flags_of_writes`, by
which a run of any calls declares one flag for each loop that needs one, directly
before that loop, numbers them in the order in which they stand in the texts, and
clears at a `break` the flag of the loop that the `break` leaves.

The lowering of a piece of source from number `n` is described once, by
`Numbers`: which flags it declares, what its jumps clear, and at which number it
ends. What comes after the piece is left open there, so that pieces compose.
-/

namespace Offside

/-! ### Loops in the source that need a flag -/

namespace Stmt

/-- A loop needs a flag if it has an `else` block and its body a `break`. -/
def needsFlag (body orelse : List Stmt) : Bool := !orelse.isEmpty && blockHasBreak body

mutual

/-- The loops in a statement that need a flag, outer ones before inner ones and
bodies before `else` blocks, by the headers that they become. Nothing of a loop
over a bad range is written. -/
def flaggedLoops : Stmt → List Target.LoopHeader
  | .functionDef _ _ body | .classDef _ body => blockFlaggedLoops body
  | .ifElse _ body alternate => blockFlaggedLoops body ++ alternateFlaggedLoops alternate
  | .whileLoop condition body orelse =>
    (if needsFlag body orelse then [.whileTrue condition.lower] else []) ++
      (blockFlaggedLoops body ++ blockFlaggedLoops orelse)
  | .forLoop target iter body orelse =>
    match loopHeader target iter with
    | .error _ => []
    | .ok header =>
      (if needsFlag body orelse then [header] else []) ++
        (blockFlaggedLoops body ++ blockFlaggedLoops orelse)
  | _ => []

/-- The loops in the rest of a conditional that need a flag. -/
def alternateFlaggedLoops : Alternate → List Target.LoopHeader
  | .none => []
  | .elseIf _ body alternate => blockFlaggedLoops body ++ alternateFlaggedLoops alternate
  | .otherwise body => blockFlaggedLoops body

/-- The loops in statements that need a flag. -/
def blockFlaggedLoops : List Stmt → List Target.LoopHeader
  | [] => []
  | s :: ss => flaggedLoops s ++ blockFlaggedLoops ss

end

end Stmt

/-! ### What lowering a piece of source does -/

/-- Flags numbered from `n + 1` on, one for each of the loops. -/
def numbered (n : Nat) : List Target.LoopHeader → List (String × Option Target.LoopHeader)
  | [] => []
  | header :: headers => (flagName (n + 1), some header) :: numbered (n + 1) headers

theorem numbered_append (n : Nat) (headers headers' : List Target.LoopHeader) :
    numbered n (headers ++ headers') =
      numbered n headers ++ numbered (n + headers.length) headers' := by
  induction headers generalizing n with
  | nil => rfl
  | cons header headers ih =>
      rw [List.cons_append, numbered, ih, numbered, List.cons_append, List.length_cons,
        Nat.add_right_comm, Nat.add_assoc]

theorem map_fst_numbered (n : Nat) (headers : List Target.LoopHeader) :
    (numbered n headers).map Prod.fst = (List.range' (n + 1) headers.length).map flagName := by
  induction headers generalizing n with
  | nil => rfl
  | cons header headers ih =>
      rw [numbered, List.map_cons, ih, List.length_cons, List.range'_succ, List.map_cons]

theorem map_snd_numbered (n : Nat) (headers : List Target.LoopHeader) :
    (numbered n headers).map Prod.snd = headers.map some := by
  induction headers generalizing n with
  | nil => rfl
  | cons header headers ih => rw [numbered, List.map_cons, ih, List.map_cons]

open Target.Stmt (declarations alternateDeclarations clears alternateClears clearings withoutFlags
  IsCode)

/-- Code and a number come from lowering at number `n` and inside a loop with the
flag `own`: the code declares a flag for each of the loops, and no others; its
jumps clear what they should; and the number has grown by one for each flag. -/
structure Numbers (own : Option String) (n : Nat) (loops : List Target.LoopHeader)
    (out : List Target.Stmt × Nat) : Prop where
  declarations_append : ∀ rest, declarations (out.1 ++ rest) = numbered n loops ++ declarations rest
  clears_append : ∀ rest, clears own (out.1 ++ rest) = clears own rest
  count : out.2 = n + loops.length

namespace Numbers

variable {own : Option String} {n m k : Nat} {loops loops' : List Target.LoopHeader}
  {code code' : List Target.Stmt}

theorem declarations_eq (h : Numbers own n loops (code, m)) :
    declarations code = numbered n loops := by
  have hall := h.declarations_append []
  rwa [List.append_nil, declarations, List.append_nil] at hall

theorem clears_eq (h : Numbers own n loops (code, m)) : clears own code = true := by
  have hall := h.clears_append []
  rwa [List.append_nil] at hall

/-- A statement without a block that is no jump. -/
theorem leaf {t : Target.Stmt}
    (hdeclarations : ∀ rest, declarations (t :: rest) = declarations rest)
    (hclears : ∀ rest, clears own (t :: rest) = clears own rest) : Numbers own n [] ([t], n) :=
  ⟨hdeclarations, hclears, rfl⟩

theorem append (h : Numbers own n loops (code, m)) (h' : Numbers own m loops' (code', k)) :
    Numbers own n (loops ++ loops') (code ++ code', k) := by
  have hm : m = n + loops.length := h.count
  have hk : k = m + loops'.length := h'.count
  constructor
  · intro rest
    rw [List.append_assoc, h.declarations_append, h'.declarations_append, numbered_append, hm,
      List.append_assoc]
  · intro rest
    rw [List.append_assoc, h.clears_append, h'.clears_append]
  · show k = n + (loops ++ loops').length
    rw [List.length_append, hk, hm, Nat.add_assoc]

/-- A statement around a block. What the jumps in the block belong to is `inner`. -/
theorem enclose {inner : Option String} {t : Target.Stmt} (h : Numbers inner n loops (code, m))
    (hdeclarations : ∀ rest, declarations (t :: rest) = declarations code ++ declarations rest)
    (hclears : ∀ rest, clears own (t :: rest) = (clears inner code && clears own rest)) :
    Numbers own n loops ([t], m) := by
  refine ⟨fun rest => ?_, fun rest => ?_, h.count⟩
  · rw [List.singleton_append, hdeclarations, h.declarations_eq]
  · rw [List.singleton_append, hclears, h.clears_eq, Bool.true_and]

/-- A loop with a flag, and its `else` block. -/
theorem guarded (header : Target.LoopHeader)
    (hbody : Numbers (some (flagName (n + 1))) (n + 1) loops (code, m))
    (horelse : Numbers own m loops' (code', k)) :
    Numbers own n (header :: (loops ++ loops'))
      (completed (some (flagName (n + 1))) header code code', k) := by
  have hm : m = n + 1 + loops.length := hbody.count
  have hk : k = m + loops'.length := horelse.count
  constructor
  · intro rest
    show (flagName (n + 1), some header) ::
      (declarations code ++ (declarations code' ++ declarations rest)) = _
    rw [hbody.declarations_eq, horelse.declarations_eq, numbered, numbered_append, hm,
      List.cons_append, List.append_assoc]
  · intro rest
    show (clears (some (flagName (n + 1))) code && (clears own code' && clears own rest)) = _
    rw [hbody.clears_eq, horelse.clears_eq, Bool.true_and, Bool.true_and]
  · show k = n + (header :: (loops ++ loops')).length
    rw [List.length_cons, List.length_append, hk, hm]
    omega

/-- A loop without a flag, and its `else` block. -/
theorem unguarded (header : Target.LoopHeader) (hbody : Numbers none n loops (code, m))
    (horelse : Numbers own m loops' (code', k)) :
    Numbers own n (loops ++ loops') (completed none header code code', k) :=
  Numbers.append (hbody.enclose (fun _ => rfl) fun _ => rfl) horelse

end Numbers

/-- The rest of a conditional and a number come from lowering at number `n`. -/
structure AlternateNumbers (own : Option String) (n : Nat) (loops : List Target.LoopHeader)
    (out : Target.Alternate × Nat) : Prop where
  declarations_eq : alternateDeclarations out.1 = numbered n loops
  clears_eq : alternateClears own out.1 = true
  count : out.2 = n + loops.length

namespace Numbers

variable {own : Option String} {n m k : Nat} {loops loops' : List Target.LoopHeader}
  {code : List Target.Stmt} {alternate : Target.Alternate}

theorem elseIf (h : Numbers own n loops (code, m))
    (hrest : AlternateNumbers own m loops' (alternate, k)) (condition : Target.Expr) :
    AlternateNumbers own n (loops ++ loops') (.elseIf condition code alternate, k) := by
  have hm : m = n + loops.length := h.count
  have hk : k = m + loops'.length := hrest.count
  constructor
  · show declarations code ++ alternateDeclarations alternate = _
    rw [h.declarations_eq, hrest.declarations_eq, numbered_append, hm]
  · show (clears own code && alternateClears own alternate) = true
    rw [h.clears_eq, hrest.clears_eq, Bool.true_and]
  · show k = n + (loops ++ loops').length
    rw [List.length_append, hk, hm, Nat.add_assoc]

theorem ifElse (h : Numbers own n loops (code, m))
    (hrest : AlternateNumbers own m loops' (alternate, k)) (condition : Target.Expr) :
    Numbers own n (loops ++ loops') ([.ifElse condition code alternate], k) := by
  have hwhole := h.elseIf hrest condition
  refine ⟨fun rest => ?_, fun rest => ?_, hwhole.count⟩
  · show alternateDeclarations (.elseIf condition code alternate) ++ declarations rest = _
    rw [hwhole.declarations_eq]
  · show (alternateClears own (.elseIf condition code alternate) && clears own rest) = _
    rw [hwhole.clears_eq, Bool.true_and]

end Numbers

/-! ### Lowering -/

theorem lowerLoop_numbers {scope : Scope} {body orelse : List Stmt}
    (header : Target.LoopHeader)
    (hbody : ∀ flag n, Numbers flag n (Stmt.blockFlaggedLoops body)
      ((Stmt.lowerBlock (.loopBody flag) body).run n))
    (horelse : ∀ n, Numbers scope.flag n (Stmt.blockFlaggedLoops orelse)
      ((Stmt.lowerBlock scope.branch orelse).run n)) (n : Nat) :
    Numbers scope.flag n
      ((if Stmt.needsFlag body orelse then [header] else []) ++
        (Stmt.blockFlaggedLoops body ++ Stmt.blockFlaggedLoops orelse))
      ((lowerLoop scope header body orelse).run n) := by
  cases hflag : Stmt.needsFlag body orelse with
  | true =>
      have hchoice : loopFlag body orelse = some <$> newFlag := if_pos hflag
      have hrun : (lowerLoop scope header body orelse).run n =
          let inner := (Stmt.lowerBlock (.loopBody (some (flagName (n + 1)))) body).run (n + 1)
          let after := (Stmt.lowerBlock scope.branch orelse).run inner.2
          (completed (some (flagName (n + 1))) header inner.1 after.1, after.2) := by
        rw [lowerLoop, hchoice]
        rfl
      rw [hrun]
      exact (hbody _ (n + 1)).guarded header (horelse _)
  | false =>
      have hchoice : loopFlag body orelse = pure none := if_neg (Bool.eq_false_iff.1 hflag)
      have hrun : (lowerLoop scope header body orelse).run n =
          let inner := (Stmt.lowerBlock (.loopBody none) body).run n
          let after := (Stmt.lowerBlock scope.branch orelse).run inner.2
          (completed none header inner.1 after.1, after.2) := by
        rw [lowerLoop, hchoice]
        rfl
      rw [hrun]
      exact (hbody none n).unguarded header (horelse _)

namespace Stmt

mutual

theorem lower_numbers (scope : Scope) (n : Nat) (s : Stmt) :
    Numbers scope.flag n s.flaggedLoops ((s.lower scope).run n) := by
  match s with
  | .assign target value =>
      show Numbers scope.flag n [] ([lowerAssign scope target value], n)
      unfold lowerAssign
      split <;> exact .leaf (fun _ => rfl) fun _ => rfl
  | .augAssign .. | .expr _ | .returnValue _ | .importModule _ | .continueLoop | .pass =>
      exact .leaf (fun _ => rfl) fun _ => rfl
  | .breakLoop =>
      rw [lower]
      cases hflag : scope.flag with
      | none => exact .leaf (fun _ => rfl) fun _ => rfl
      | some flag =>
          refine ⟨fun _ => rfl, fun rest => ?_, rfl⟩
          show (decide (some flag = some flag) && clears (some flag) rest) = _
          rw [decide_eq_true rfl, Bool.true_and]
  | .functionDef name params body =>
      have hbody := lowerBlock_numbers Scope.top n body
      rw [lower]
      cases scope.inClass with
      | false => exact hbody.enclose (fun _ => rfl) fun _ => rfl
      | true => exact hbody.enclose (fun _ => rfl) fun _ => rfl
  | .classDef name body =>
      exact (lowerBlock_numbers Scope.classBody n body).enclose (fun _ => rfl) fun _ => rfl
  | .ifElse condition body alternate =>
      exact (lowerBlock_numbers scope.branch n body).ifElse
        (lowerAlternate_numbers scope.branch _ alternate) condition.lower
  | .whileLoop condition body orelse =>
      exact lowerLoop_numbers (.whileTrue condition.lower)
        (fun flag n => lowerBlock_numbers (.loopBody flag) n body)
        (fun n => lowerBlock_numbers scope.branch n orelse) n
  | .forLoop target iter body orelse =>
      rw [flaggedLoops, lower]
      cases loopHeader target iter with
      | error degradation => exact .leaf (fun _ => rfl) fun _ => rfl
      | ok header =>
          exact lowerLoop_numbers header
            (fun flag n => lowerBlock_numbers (.loopBody flag) n body)
            (fun n => lowerBlock_numbers scope.branch n orelse) n

theorem lowerAlternate_numbers (scope : Scope) (n : Nat) (a : Alternate) :
    AlternateNumbers scope.flag n (alternateFlaggedLoops a) ((lowerAlternate scope a).run n) := by
  match a with
  | .none => exact ⟨rfl, rfl, rfl⟩
  | .elseIf condition body alternate =>
      exact (lowerBlock_numbers scope n body).elseIf
        (lowerAlternate_numbers scope _ alternate) condition.lower
  | .otherwise [] => exact ⟨rfl, rfl, rfl⟩
  | .otherwise (s :: ss) =>
      have hbody := lowerBlock_numbers scope n (s :: ss)
      exact ⟨hbody.declarations_eq, hbody.clears_eq, hbody.count⟩

theorem lowerBlock_numbers (scope : Scope) (n : Nat) (ss : List Stmt) :
    Numbers scope.flag n (blockFlaggedLoops ss) ((lowerBlock scope ss).run n) := by
  match ss with
  | [] => exact ⟨fun _ => rfl, fun _ => rfl, rfl⟩
  | s :: ss => exact (lower_numbers scope n s).append (lowerBlock_numbers scope _ ss)

end

end Stmt

/-! ### Lines of lowered code -/

theorem standBeforeLoops_numbered (n : Nat) (headers : List Target.LoopHeader) :
    Target.Stmt.StandBeforeLoops (numbered n headers) := by
  induction headers generalizing n with
  | nil => simp [numbered, Target.Stmt.StandBeforeLoops]
  | cons header headers ih => exact List.forall_mem_cons.2 ⟨rfl, ih (n + 1)⟩

/-- Lowered code is written with just the lines of its flags more than without them. -/
theorem Numbers.addsFlags {own : Option String} {n m : Nat} {loops : List Target.LoopHeader}
    {code : List Target.Stmt} (h : Numbers own n loops (code, m)) (depth : Nat) :
    Target.AddsFlags (Target.Stmt.blockLines depth (withoutFlags code)) (declarations code)
      (clearings code) (Target.Stmt.blockLines depth code) := by
  refine Target.Stmt.addsFlags_blockLines depth code h.clears_eq ?_
  rw [h.declarations_eq]
  exact standBeforeLoops_numbered n loops

/-! ### All that one writer writes -/

/-- What a writer can be asked to write. -/
inductive Writer.Call where
  | program (p : Program)
  /-- A statement at a depth, in any scope. -/
  | statement (depth : Nat) (scope : Scope) (s : Stmt)

namespace Writer.Call

/-- The depth of what is written. -/
def depth : Call → Nat
  | program _ => 0
  | statement depth _ _ => depth

/-- What is around the statements that are written. -/
def scope : Call → Scope
  | program _ => .top
  | statement _ scope _ => scope

/-- The statements that are written. -/
def statements : Call → List Stmt
  | program p => p.statements
  | statement _ _ s => [s]

end Writer.Call

namespace Writer

/-- Write what is asked for. -/
def write (w : Writer) : Call → String × Writer
  | .program p => w.program p
  | .statement depth scope s => w.statement depth scope s

/-- The texts of calls, one after the other. -/
def writes (w : Writer) : List Call → List String
  | [] => []
  | call :: calls => (w.write call).1 :: (w.write call).2.writes calls

/-- The codes of calls, one after the other. -/
def codes (w : Writer) : List Call → List (List Target.Stmt)
  | [] => []
  | call :: calls =>
    (w.lower call.scope call.statements).1 :: (w.lower call.scope call.statements).2.codes calls

theorem write_eq (w : Writer) (call : Call) :
    w.write call = w.block call.depth call.scope call.statements := by
  cases call <;> rfl

theorem length_writes (w : Writer) (calls : List Call) :
    (w.writes calls).length = calls.length := by
  induction calls generalizing w with
  | nil => rfl
  | cons call calls ih => exact congrArg Nat.succ (ih _)

theorem length_codes (w : Writer) (calls : List Call) : (w.codes calls).length = calls.length := by
  induction calls generalizing w with
  | nil => rfl
  | cons call calls ih => exact congrArg Nat.succ (ih _)

/-- A writer that has numbered `n` flags goes on from there. -/
theorem declarations_codes (w : Writer) (calls : List Call) :
    (w.codes calls).flatMap declarations =
      numbered w.flags (calls.flatMap fun call => Stmt.blockFlaggedLoops call.statements) := by
  induction calls generalizing w with
  | nil => rfl
  | cons call calls ih =>
      have hcall := Stmt.lowerBlock_numbers call.scope w.flags call.statements
      have hflags : (w.lower call.scope call.statements).2.flags =
          w.flags + (Stmt.blockFlaggedLoops call.statements).length := hcall.count
      rw [codes, List.flatMap_cons, ih, hflags, List.flatMap_cons, numbered_append]
      exact congrArg (· ++ _) hcall.declarations_eq

/-- Each code and each text is that of the writer as it is at that call. -/
theorem exists_writer_of_mem_zip {w : Writer} {calls : List Call} {call : Call}
    {code : List Target.Stmt} {text : String}
    (h : (call, code, text) ∈ calls.zip ((w.codes calls).zip (w.writes calls))) :
    ∃ now : Writer, now.width = w.width ∧ code = (now.lower call.scope call.statements).1 ∧
      text = (now.block call.depth call.scope call.statements).1 := by
  induction calls generalizing w with
  | nil => simp at h
  | cons first calls ih =>
      have hnext : (w.block first.depth first.scope first.statements).2 =
          (w.lower first.scope first.statements).2 := rfl
      rw [codes, writes, List.zip_cons_cons, List.zip_cons_cons, write_eq, hnext] at h
      rcases List.mem_cons.1 h with heq | hrest
      · obtain ⟨rfl, rfl, rfl⟩ := by simpa using heq
        exact ⟨w, rfl, rfl, rfl⟩
      · -- The writer after the first call has the same width.
        obtain ⟨now, hwidth, hcode, htext⟩ := ih hrest
        exact ⟨now, hwidth, hcode, htext⟩

end Writer

theorem nodup_map_flagName (start count : Nat) :
    ((List.range' start count).map flagName).Nodup :=
  List.Pairwise.map _ (fun _ _ hne heq => hne (flagName_injective heq)) List.nodup_range'

/-- **Flags are declared once each and in order.** Whatever one writer is asked to
write, the texts are those of codes in which the flags `_loop_completed_1`,
`_loop_completed_2`, … are declared one after the other, each directly before its
loop and one for each loop that needs one. Each `break` clears the flag of the
innermost loop around it in the same call, or the one that the caller gives if there
is no loop. The lines of a text are those of the code without its flags, and besides
them just one for each declaration and one before each `break` that clears a flag. -/
theorem flags_of_writes (width : Nat) (calls : List Writer.Call) :
    let codes := (Writer.new width).codes calls
    let texts := (Writer.new width).writes calls
    let loops := calls.flatMap fun call => Stmt.blockFlaggedLoops call.statements
    codes.length = calls.length ∧ texts.length = calls.length ∧
    (codes.flatMap declarations).map Prod.fst = (List.range' 1 loops.length).map flagName ∧
    (codes.flatMap declarations).map Prod.snd = loops.map some ∧
    ((codes.flatMap declarations).map Prod.fst).Nodup ∧
    ∀ call code text, (call, code, text) ∈ calls.zip (codes.zip texts) →
      IsCode code text ∧ clears call.scope.flag code = true ∧
      ∃ plain lines : List Target.Line,
        IsCode (withoutFlags code) ("\n".intercalate (plain.map fun l =>
          String.ofList (List.replicate (l.depth * width) ' ') ++ l.text)) ∧
        text = "\n".intercalate (lines.map fun l =>
          String.ofList (List.replicate (l.depth * width) ' ') ++ l.text) ∧
        Target.AddsFlags plain (declarations code) (clearings code) lines := by
  intro codes texts loops
  have hdeclared : codes.flatMap declarations = numbered 0 loops :=
    Writer.declarations_codes (Writer.new width) calls
  have hnames : (codes.flatMap declarations).map Prod.fst =
      (List.range' 1 loops.length).map flagName := by
    rw [hdeclared, map_fst_numbered]
  refine ⟨Writer.length_codes _ calls, Writer.length_writes _ calls, hnames, ?_, ?_, ?_⟩
  · rw [hdeclared, map_snd_numbered]
  · rw [hnames]
    exact nodup_map_flagName 1 loops.length
  · intro call code text hmem
    obtain ⟨now, hwidth, rfl, rfl⟩ := Writer.exists_writer_of_mem_zip hmem
    obtain rfl : now.width = width := hwidth
    have hnumbers := Stmt.lowerBlock_numbers call.scope now.flags call.statements
    exact ⟨Target.Stmt.isCode_renderLines now.width call.depth _, hnumbers.clears_eq, _, _,
      Target.Stmt.isCode_renderLines now.width call.depth _, rfl, hnumbers.addsFlags call.depth⟩

/-- A statement whose `else` block leaves a loop of the caller. -/
def brokenLoop : Writer.Call :=
  .statement 1 (.loopBody (some "done")) (.whileLoop (.ident "a") [.breakLoop] [.breakLoop])

/-- The text of this statement. -/
def brokenLoopCode : String :=
  " let _loop_completed_1 = true;\n while (a) \x7b\n  _loop_completed_1 = false;\n" ++
    "  break;\n \x7d\n if (_loop_completed_1) \x7b\n  done = false;\n  break;\n \x7d"

/-- After the statement, which declares one flag and clears two, a program with a loop in
a loop goes on with the next number. -/
theorem flags_of_brokenLoops :
    (Writer.new 1).writes [brokenLoop, .program ⟨nestedLoops⟩] =
      [brokenLoopCode,
        "let _loop_completed_2 = true;\nwhile (a) \x7b\n let _loop_completed_3 = true;\n" ++
          " for (var x of b) \x7b\n  if (c) \x7b\n   _loop_completed_3 = false;\n" ++
          "   break;\n  \x7d\n \x7d\n if (_loop_completed_3) \x7b\n" ++
          "  _loop_completed_2 = false;\n  break;\n \x7d\n d;\n\x7d\n" ++
          "if (_loop_completed_2) \x7b\n e;\n\x7d"] ∧
    (((Writer.new 1).codes [brokenLoop, .program ⟨nestedLoops⟩]).flatMap declarations).map Prod.fst =
      ["_loop_completed_1", "_loop_completed_2", "_loop_completed_3"] ∧
    ∃ code plain lines, IsCode code brokenLoopCode ∧ clears (some "done") code = true ∧
      brokenLoopCode = "\n".intercalate (lines.map fun l : Target.Line =>
        String.ofList (List.replicate (l.depth * 1) ' ') ++ l.text) ∧
      Target.AddsFlags plain [("_loop_completed_1", some (.whileTrue (.name "a")))]
        ["_loop_completed_1", "done"] lines := by
  obtain ⟨-, -, hnames, -, -, hcalls⟩ := flags_of_writes 1 [brokenLoop, .program ⟨nestedLoops⟩]
  have htext : ((Writer.new 1).write brokenLoop).1 = brokenLoopCode := by decide +kernel
  obtain ⟨hcode, hclears, plain, lines, -, hlines, hadds⟩ := hcalls _ _ _ List.mem_cons_self
  refine ⟨by decide +kernel, hnames.trans (by decide +kernel), _, plain, lines, ?_, hclears, ?_,
    hadds⟩
  · exact htext ▸ hcode
  · exact htext ▸ hlines

end Offside
