import Offside.Proofs.Effects

/-!
# Offside.Proofs.Overwriting

The input of a run **keeps its content**, with one exception: without `-o`, the code
goes to the name of the input with the extension `js`, in the directory of the program,
and that is the input itself if it stands there and has this extension already. Main
statement: `Cli.run_keeps_input`.
-/

namespace Offside

/-! ### Extensions -/

namespace Path

theorem stem_ne_empty {name : String} (h : name ≠ "") : stem name ≠ "" := by
  rw [stem]
  split
  · rename_i dot before _
    split
    · exact h
    · rename_i hbefore
      rw [ne_eq, ← String.toList_eq_nil_iff, String.toList_ofList, List.reverse_eq_nil_iff]
      exact fun hnil => hbefore (List.isEmpty_iff.2 hnil)
  · exact h

/-- Exchanging the extension `js` for itself changes nothing. -/
theorem stem_append_js {base : String} (h : base ≠ "") : stem (base ++ ".js") = base := by
  have hreverse : (base ++ ".js").toList.reverse = 's' :: 'j' :: '.' :: base.toList.reverse := by
    rw [String.toList_append, List.reverse_append]
    rfl
  have hdrop : (base ++ ".js").toList.reverse.dropWhile (· ≠ '.') = '.' :: base.toList.reverse := by
    rw [hreverse]
    rfl
  have hne : base.toList.reverse.isEmpty = false := by
    rw [List.isEmpty_reverse, List.isEmpty_eq_false_iff]
    exact fun hnil => h (String.toList_eq_nil_iff.1 hnil)
  simp only [stem, hdrop, hne, Bool.false_eq_true, if_false]
  rw [List.reverse_reverse, String.ofList_toList]

end Path

/-! ### Runs without `-o` -/

namespace Cli

/-- A file in the directory of the program, with the extension `js`. -/
def IsScript (tree : FileTree) (p : List String) : Prop :=
  ∃ base, base ≠ "" ∧ p = tree.here ++ [base ++ ".js"]

/-- A file is the target that its own name leads to exactly if it is a script. -/
theorem isScript_iff {tree : FileTree} {p : List String} {name : String}
    (hname : Path.IsName name) (hlast : p.getLast? = some name) :
    IsScript tree p ↔ p = tree.here ++ [Path.stem name ++ ".js"] := by
  constructor
  · rintro ⟨base, hbase, rfl⟩
    rw [List.getLast?_concat] at hlast
    obtain rfl := Option.some.inj hlast
    rw [Path.stem_append_js hbase]
  · intro hp
    exact ⟨Path.stem name, Path.stem_ne_empty hname.ne_empty, hp⟩

section

variable {o : Options} {stdin : ByteArray} {tree : FileTree} {source path : String}

/-- A run that has a target without `-o` has read a file. -/
theorem Options.exists_file_of_target? (houtput : o.output = none) (htarget : o.target? = some path)
    (hsource : o.source stdin tree = .ok source) :
    ∃ p, tree.locate o.input = .ok (.file p) := by
  have hstdin : ¬ o.readsStdin = true := by
    intro hstdin
    rw [target?, houtput, hstdin] at htarget
    cases htarget
  rw [Options.source, if_neg hstdin] at hsource
  exact FileTree.exists_file_of_readText hsource

/-- What a run without `-o` has written stands at its input exactly if that is a
script. -/
theorem isWritten_at_input {p : List String} {after : FileTree} {code : String}
    (houtput : o.output = none) (htarget : o.target? = some path)
    (hsource : o.source stdin tree = .ok source) (hinput : tree.LeadsTo o.input p)
    (hwrite : tree.writeText path code = .ok after) :
    (IsScript tree p → after.content? p = some code.toUTF8) ∧
      (¬ IsScript tree p → after.content? p = tree.content? p) := by
  -- The input is the file that has been read, and its name leads to the target.
  obtain ⟨file, hfile⟩ := o.exists_file_of_target? houtput htarget hsource
  obtain rfl : p = file := by
    rcases hinput with hplace | hplace
    · rw [hfile] at hplace
      cases hplace
      rfl
    · rw [hfile] at hplace
      cases hplace
  obtain ⟨name, hname, hpart, hlast⟩ := FileTree.exists_fileName_of_locate hfile
  have hstores := FileTree.stores_of_writeText hwrite
  obtain ⟨q, ⟨named, hnamed, -⟩ | ⟨-, name', hname', rfl⟩, hwritten⟩ :=
    Options.targets_of_stores htarget hsource hstores
  · rw [houtput] at hnamed
    cases hnamed
  obtain rfl := Option.some.inj (hname.symm.trans hname')
  rw [isScript_iff hpart hlast]
  constructor
  · intro hp
    rw [hp]
    exact hwritten.content
  · intro hp
    exact hwritten.others p hp

end

/-- **Without `-o`, the input of a run keeps its content**, unless it stands in the
directory of the program and has the extension `js` already: then a run that succeeds
and is asked for a file has put the code of its source there. -/
theorem run_keeps_input {args : List String} {o : Options} {tree : FileTree} {p : List String}
    (hargs : Options.ofArgs args = .ok o) (houtput : o.output = none)
    (hinput : tree.LeadsTo o.input p) (stdin : ByteArray) :
    (¬ (IsScript tree p ∧ o.wantsFile = true ∧ (run args stdin tree).1.exit = 0) →
      (run args stdin tree).2.content? p = tree.content? p) ∧
    (IsScript tree p → o.wantsFile = true → (run args stdin tree).1.exit = 0 →
      ∃ source output, o.source stdin tree = .ok source ∧ transpile source o.indent = .ok output ∧
        (run args stdin tree).2.content? p = some output.code.toUTF8) := by
  have hrun : run args stdin tree = runWith o stdin tree := by rw [run, hargs]
  rw [hrun]
  rcases runWith_cases o stdin tree with
    ⟨hsame, hreason⟩ | ⟨source, output, path, hsource, hcode, htarget, hwants, hexit, hwrite⟩
  · constructor
    · intro _
      rw [hsame]
    · intro _ hwants hexit
      rcases hreason with hfails | hdry
      · exact absurd hexit hfails
      · rw [hwants] at hdry
        cases hdry
  · obtain ⟨hscript, hother⟩ := isWritten_at_input houtput htarget hsource hinput hwrite
    constructor
    · intro hnot
      exact hother fun h => hnot ⟨h, hwants, hexit⟩
    · intro h _ _
      exact ⟨source, output, hsource, hcode, hscript h⟩

/-- The program runs in a directory with two scripts, one of them in a directory of its
own, and an empty directory. -/
def scripts : FileTree where
  root := .directory
    [("home", .directory
      [("a.js", .file "x = 1\n".toUTF8),
        ("lib", .directory [("b.js", .file "y = 2\n".toUTF8), ("old", .directory [])])])]
  here := ["home"]
  isDirectory_here := by decide

/-- The options of a run that only has an input. -/
def plainOptions (input : String) : Options := ⟨input, none, false, false, false, false, false, 4⟩

/-- A script in another directory is no target. -/
theorem run_keeps_script_elsewhere :
    (run ["/home/lib/old/../b.js"] ByteArray.empty scripts).1.exit = 0 ∧
      (run ["/home/lib/old/../b.js"] ByteArray.empty scripts).2.content? ["home", "b.js"] =
        some "y = 2;".toUTF8 ∧
      (run ["/home/lib/old/../b.js"] ByteArray.empty scripts).2.content? ["home", "lib", "b.js"] =
        scripts.content? ["home", "lib", "b.js"] := by
  have hargs : Options.ofArgs ["/home/lib/old/../b.js"] =
      .ok (plainOptions "/home/lib/old/../b.js") := by decide +kernel
  have hplace : scripts.locate "/home/lib/old/../b.js" = .ok (.file ["home", "lib", "b.js"]) := by
    decide +kernel
  have hscript : ¬ IsScript scripts ["home", "lib", "b.js"] := by
    rintro ⟨base, -, hp⟩
    simpa [scripts] using congrArg List.length hp
  refine ⟨by decide +kernel, by decide +kernel, ?_⟩
  exact (run_keeps_input hargs rfl (.inl hplace) ByteArray.empty).1 fun h => hscript h.1

/-- A script in the directory of the program is overwritten, whether its path starts there
or at the root. -/
theorem run_overwrites_script :
    Options.ofArgs ["a.js"] = .ok (plainOptions "a.js") ∧ (plainOptions "a.js").output = none ∧
      scripts.LeadsTo "a.js" ["home", "a.js"] ∧ scripts.LeadsTo "/home/a.js" ["home", "a.js"] ∧
      scripts.content? ["home", "a.js"] = some "x = 1\n".toUTF8 ∧
      (run ["a.js"] ByteArray.empty scripts).2.content? ["home", "a.js"] =
        some "x = 1;".toUTF8 ∧
      (run ["/home/a.js"] ByteArray.empty scripts).2.content? ["home", "a.js"] =
        some "x = 1;".toUTF8 ∧
      some "x = 1;".toUTF8 ≠ scripts.content? ["home", "a.js"] := by
  refine ⟨by decide +kernel, rfl, .inl (by decide +kernel), .inl (by decide +kernel), ?_, ?_, ?_,
    ?_⟩ <;> decide +kernel

end Cli

end Offside
