import Offside.Proofs.Diagnosis
import Offside.Proofs.Flags

/-!
# Offside.Proofs.Freshness

Flags **and the names of the program**. Main statement: `flags_fresh_iff`.

Flags are numbered from one without a look at the program, so a program can use the
name of a flag. It stays clear of its flags exactly if no variable of it has the
name of a flag with a number up to that of the loops that need one.
-/

namespace Offside

open Target.Stmt (declarations clearings withoutFlags IsCode)

theorem Program.code_of_generate {p : Program} {width : Nat} {output : Output}
    (h : p.generate width = .ok output) : output.code = ((Writer.new width).program p).1 := by
  rw [generate] at h
  cases hcheck : p.checkLiterals with
  | error failure =>
      rw [hcheck] at h
      cases h
  | ok _ =>
      rw [hcheck] at h
      obtain rfl := Except.ok.inj h
      rfl

/-- The flags that a program gets: one for each loop that needs one, from number one
on. -/
theorem mem_declarations_iff {width : Nat} {p : Program} {flag : String} :
    flag ∈ (declarations ((Writer.new width).lower Scope.top p.statements).1).map Prod.fst ↔
      ∃ n, 1 ≤ n ∧ n ≤ (Stmt.blockFlaggedLoops p.statements).length ∧ flag = flagName n := by
  have hnumbers := Stmt.lowerBlock_numbers Scope.top 0 p.statements
  have hdeclared : declarations ((Writer.new width).lower Scope.top p.statements).1 =
      numbered 0 (Stmt.blockFlaggedLoops p.statements) := hnumbers.declarations_eq
  rw [hdeclared, map_fst_numbered]
  constructor
  · intro h
    obtain ⟨n, hn, rfl⟩ := List.mem_map.1 h
    obtain ⟨hfirst, hlast⟩ := List.mem_range'_1.1 hn
    exact ⟨n, by omega, by omega, rfl⟩
  · rintro ⟨n, hfirst, hlast, rfl⟩
    exact List.mem_map_of_mem (List.mem_range'_1.2 ⟨by omega, by omega⟩)

/-- The code of a source is the text of statements that declare the flags
`_loop_completed_1`, `_loop_completed_2`, … up to the number of loops that need one.
The lines of flags are the only ones that it has more than without them. None of the
flags is a variable of the program exactly if a variable with the name of a
flag has the number zero or one beyond the number of those loops. -/
theorem flags_fresh_iff {source : String} {width : Nat} {output : Output}
    (h : transpile source width = .ok output) :
    ∃ p, Program.parse source = .ok p ∧
      let code := ((Writer.new width).lower Scope.top p.statements).1
      let loops := Stmt.blockFlaggedLoops p.statements
      output.code = Target.renderLines width (Target.Stmt.blockLines 0 code) ∧
      IsCode code output.code ∧
      Target.AddsFlags (Target.Stmt.blockLines 0 (withoutFlags code)) (declarations code)
        (clearings code) (Target.Stmt.blockLines 0 code) ∧
      (∀ flag, flag ∈ (declarations code).map Prod.fst ↔
        ∃ n, 1 ≤ n ∧ n ≤ loops.length ∧ flag = flagName n) ∧
      ((∀ flag ∈ (declarations code).map Prod.fst, flag ∉ Stmt.blockNames p.statements) ↔
        ∀ name ∈ Stmt.blockNames p.statements, ∀ n, name = flagName n →
          n = 0 ∨ loops.length < n) := by
  obtain ⟨p, hparse, hgenerate⟩ := exists_program_of_transpile h
  have hcode := Program.code_of_generate hgenerate
  refine ⟨p, hparse, hcode, hcode ▸ Target.Stmt.isCode_renderLines width 0 _,
    (Stmt.lowerBlock_numbers Scope.top 0 p.statements).addsFlags 0,
    fun flag => mem_declarations_iff, ?_, ?_⟩
  · intro hfresh name hname n hn
    by_contra hnumber
    exact hfresh name (mem_declarations_iff.2 ⟨n, by omega, by omega, hn⟩) hname
  · intro hnames flag hflag hname
    obtain ⟨n, hfirst, hlast, hn⟩ := mem_declarations_iff.1 hflag
    have hnumber := hnames flag hname n hn
    omega

/-- A loop that needs a flag, in a program that uses the names of other flags. -/
def otherFlags : String :=
  "_loop_completed_2 = f\"\x7b_loop_completed_0\x7d\"\nwhile a:\n    break\nelse:\n    b\n"

theorem flags_fresh_of_otherFlags :
    transpile otherFlags 4 = .ok
        ⟨"_loop_completed_2 = `$\x7b_loop_completed_0\x7d`;\nlet _loop_completed_1 = true;\n" ++
          "while (a) \x7b\n    _loop_completed_1 = false;\n    break;\n\x7d\n" ++
          "if (_loop_completed_1) \x7b\n    b;\n\x7d", []⟩ ∧
      ∃ p, Program.parse otherFlags = .ok p ∧
        "_loop_completed_2" ∈ Stmt.blockNames p.statements ∧
        ∀ flag ∈ (declarations ((Writer.new 4).lower Scope.top p.statements).1).map Prod.fst,
          flag ∉ Stmt.blockNames p.statements := by
  have hcode : transpile otherFlags 4 = .ok
      ⟨"_loop_completed_2 = `$\x7b_loop_completed_0\x7d`;\nlet _loop_completed_1 = true;\n" ++
        "while (a) \x7b\n    _loop_completed_1 = false;\n    break;\n\x7d\n" ++
        "if (_loop_completed_1) \x7b\n    b;\n\x7d", []⟩ :=
    eq_ok_of_toOption (by decide +kernel)
  have hread : Program.parse otherFlags = .ok
      ⟨[.assign (.ident "_loop_completed_2") (.fstring ["", ""] [.ident "_loop_completed_0"]),
        .whileLoop (.ident "a") [.breakLoop] [.expr (.ident "b")]]⟩ :=
    Program.parse_eq_ok (by decide +kernel)
  obtain ⟨p, hparse, -, -, -, -, hfresh⟩ := flags_fresh_iff hcode
  obtain rfl := Except.ok.inj (hread.symm.trans hparse)
  refine ⟨hcode, _, hread, List.mem_cons_self, hfresh.2 fun name hname n hn => ?_⟩
  have hnames : name ∈ ["_loop_completed_2", "_loop_completed_0", "a", "b"] := hname
  simp only [List.mem_cons, List.not_mem_nil, or_false] at hnames
  rcases hnames with rfl | rfl | rfl | rfl
  · obtain rfl : 2 = n := flagName_injective hn
    exact .inr (by decide)
  · obtain rfl : 0 = n := flagName_injective hn
    exact .inl rfl
  · exact absurd ⟨n, hn⟩ (not_isFlagName (by decide))
  · exact absurd ⟨n, hn⟩ (not_isFlagName (by decide))

/-- A variable with the name of the first flag is set by the loop that gets this
flag. -/
theorem flags_capture_variable :
    ∃ p, Program.parse "_loop_completed_1 = 0\nwhile a:\n    break\nelse:\n    b\n" = .ok p ∧
      transpile "_loop_completed_1 = 0\nwhile a:\n    break\nelse:\n    b\n" 4 = .ok
        ⟨"_loop_completed_1 = 0;\nlet _loop_completed_1 = true;\nwhile (a) \x7b\n" ++
          "    _loop_completed_1 = false;\n    break;\n\x7d\nif (_loop_completed_1) \x7b\n" ++
          "    b;\n\x7d", []⟩ ∧
      "_loop_completed_1" ∈
        (declarations ((Writer.new 4).lower Scope.top p.statements).1).map Prod.fst ∧
      "_loop_completed_1" ∈ Stmt.blockNames p.statements := by
  refine ⟨⟨[.assign (.ident "_loop_completed_1") (.literal (.number (.ofDecimal false ⟨0, 0⟩))),
      .whileLoop (.ident "a") [.breakLoop] [.expr (.ident "b")]]⟩,
    Program.parse_eq_ok (by decide +kernel), eq_ok_of_toOption (by decide +kernel),
    by decide +kernel, List.mem_cons_self⟩

end Offside
