import Offside.Proofs.Diagnosis
import Offside.Proofs.Occurrence

/-!
# Offside.Proofs.Unsupported

Words of features that are not supported, **as names of a program** that has been
translated with diagnostics. Main statement: `transpileChecked_names_iff`.

The tokens are searched before they are read, so no such word is a name of the
program. The search does not look into f-strings: there, the reported words that
are no keywords pass for names. Those that are keywords never do.
-/

namespace Offside

/-! ### Names are no keywords -/

namespace Token

theorem not_mem_keywords {l : Lexeme} {line : Nat} {t : Token} (h : l.token? line = some t)
    (hkind : t.kind = .identifier) : t.text.toList ∉ Lexeme.keywords := by
  obtain ⟨letters, -, htext, hkeyword⟩ := exists_word_of_token? h (.inr hkind)
  rw [htext, String.toList_ofList]
  intro hmem
  rw [hkeyword.2 hmem] at hkind
  cases hkind

theorem OccursIn.not_mem_keywords {source : List Char} {t : Token}
    (h : t.OccursIn (ofProgram source)) (hkind : t.kind = .identifier) :
    t.text.toList ∉ Lexeme.keywords := by
  rcases h.exists_lexeme with ht | ⟨_, l, -, n, htoken⟩
  · obtain ⟨l, -, n, htoken⟩ := exists_lexeme_of_mem_ofProgram ht (by simp [hkind])
    exact Token.not_mem_keywords htoken hkind
  · exact Token.not_mem_keywords htoken hkind

end Token

/-- A reported word among the names of a program, at any depth, is one of the seven
that are no keywords. -/
theorem Program.mem_names_of_occursIn {source : String} {p : Program}
    (h : parse source = .ok p) {word : String} (hword : (Mark.name word).OccursIn p.yield)
    {f : Feature} (hf : f.trigger = .word word) : word ∈ Feature.names := by
  obtain ⟨t, ht, hkind, rfl⟩ :=
    exists_token_of_occursIn (Token.readable_ofProgram source.toList) h hword
  rcases Feature.word_of_trigger hf with hname | ⟨hkeyword, -⟩
  · exact hname
  · exact absurd hkeyword (ht.not_mem_keywords hkind)

/-! ### Names and the search of the tokens -/

theorem Registry.mem_enabled_full (f : Feature) : f ∈ Registry.full.enabled := by
  simp [enabled, full, Feature.mem_all]

/-- A source that is translated with diagnostics stands for a program whose names
outside f-strings are not reported words; and no name of it at any depth is one
exactly if the placeholders of its f-strings are free of the seven that are no
keywords. -/
theorem transpileChecked_names_iff {file : Option String} {source : String} {width : Nat}
    {output : Output} (h : transpileChecked file source width = .ok output) :
    ∃ p, Program.parse source = .ok p ∧ p.generate width = .ok output ∧
      (∀ word, Mark.name word ∈ p.yield →
        ∀ f ∈ Registry.full.enabled, f.trigger ≠ .word word) ∧
      ((∀ word, (Mark.name word).OccursIn p.yield →
          ∀ f ∈ Registry.full.enabled, f.trigger ≠ .word word) ↔
        ∀ word, (Mark.name word).InPlaceholder p.yield →
          word ∉ ["raise", "with", "nonlocal", "async", "yield", "lambda", "assert"]) := by
  have hscan : Diagnostic.scan .full file (Token.ofProgram source.toList) = [] := by
    by_contra hne
    rw [transpileChecked_of_scan_ne_nil hne] at h
    cases h
  have htranspile : transpile source width = .ok output := by
    rw [transpileChecked_of_scan_eq_nil hscan] at h
    cases hresult : transpile source width with
    | ok found =>
        rw [hresult] at h
        exact congrArg Except.ok (Except.ok.inj h)
    | error failure =>
        rw [hresult] at h
        cases h
  obtain ⟨p, hparse, hgenerate⟩ := exists_program_of_transpile htranspile
  have hdirect : ∀ word, Mark.name word ∈ p.yield →
      ∀ f ∈ Registry.full.enabled, f.trigger ≠ .word word := by
    intro word hword f _
    have hspelled := (Program.ofTokens_eq_ok_iff.1 hparse).spelled (Token.readable_ofProgram _)
    obtain ⟨t, ht, hkind, rfl⟩ := hspelled.exists_token hword
    exact Registry.lookup_full_eq_none.1
      (Diagnostic.lookup_of_scanFrom_eq_nil hscan t ht hkind) f
  refine ⟨p, hparse, hgenerate, hdirect, ?_, ?_⟩
  · intro hnames word hword hseven
    obtain ⟨f, hf⟩ := Feature.exists_trigger hseven
    exact hnames word (Mark.occursIn_iff.2 (.inr hword)) f (Registry.mem_enabled_full f) hf
  · intro hplaceholders word hword f hf htrigger
    rcases Mark.occursIn_iff.1 hword with hhere | hinner
    · exact hdirect word hhere f hf htrigger
    · exact hplaceholders word hinner (Program.mem_names_of_occursIn hparse hword htrigger)

/-- A function with an f-string in the placeholder of another. -/
def nestedPlaceholders : String := "def f(a):\n    return f\"\x7ba.b + f'\x7bc\x7d'\x7d\"\n"

/-- The expression in the outer placeholder. -/
def outerPlaceholder : Expr :=
  .binary (.attr (.ident "a") "b") .add (.fstring ["", ""] [.ident "c"]) 2

theorem transpileChecked_names_of_nestedPlaceholders :
    transpileChecked none nestedPlaceholders 4 =
        .ok ⟨"function f(a) \x7b\n    return `$\x7ba.b + `$\x7bc\x7d`\x7d`;\n\x7d", []⟩ ∧
      ∃ p, Program.parse nestedPlaceholders = .ok p ∧
        Mark.fstring ["", ""] [outerPlaceholder] ∈ p.yield ∧
        ∀ word, (Mark.name word).OccursIn p.yield →
          ∀ f ∈ Registry.full.enabled, f.trigger ≠ .word word := by
  have hcode : transpileChecked none nestedPlaceholders 4 =
      .ok ⟨"function f(a) \x7b\n    return `$\x7ba.b + `$\x7bc\x7d`\x7d`;\n\x7d", []⟩ :=
    eq_ok_of_toOption (by decide +kernel)
  have hread : Program.parse nestedPlaceholders = .ok
      ⟨[.functionDef "f" ["a"] [.returnValue (some (.fstring ["", ""] [outerPlaceholder]))]]⟩ :=
    Program.parse_eq_ok (by decide +kernel)
  obtain ⟨p, hparse, -, -, hnames⟩ := transpileChecked_names_iff hcode
  obtain rfl := Except.ok.inj (hread.symm.trans hparse)
  refine ⟨hcode, _, hread, ?_, hnames.2 ?_⟩
  · simp [Program.yield, Stmt.yieldBlock, Stmt.yield, Expr.yield]
  · rintro word ⟨quasis, es, hfstring, e, he, hword⟩
    simp only [Program.yield, Stmt.yieldBlock, Stmt.yield, Mark.ofNames, Expr.yield,
      List.mem_append, List.mem_cons, List.not_mem_nil, reduceCtorEq, or_false, false_or,
      List.flatMap_nil, Mark.fstring.injEq] at hfstring
    obtain ⟨rfl, rfl⟩ := hfstring
    obtain rfl := List.mem_singleton.1 he
    cases hword with
    | here hm =>
        simp only [outerPlaceholder, Expr.yield, List.mem_append, List.mem_cons,
          List.not_mem_nil, reduceCtorEq, or_false, false_or, Mark.name.injEq] at hm
        rcases hm with rfl | rfl <;> decide
    | placeholder hfstring he hword =>
        simp only [outerPlaceholder, Expr.yield, List.mem_append, List.mem_cons,
          List.not_mem_nil, reduceCtorEq, or_false, false_or, Mark.fstring.injEq] at hfstring
        obtain ⟨rfl, rfl⟩ := hfstring
        obtain rfl := List.mem_singleton.1 he
        cases hword with
        | here hm =>
            obtain rfl := Mark.name.inj (List.mem_singleton.1 hm)
            decide
        | placeholder hfstring _ _ => cases List.mem_singleton.1 hfstring

/-- A reported word in a placeholder is a name of the program. -/
theorem transpileChecked_passes_lambda :
    transpileChecked none "x = f\"\x7blambda\x7d\"\n" 4 = .ok ⟨"x = `$\x7blambda\x7d`;", []⟩ ∧
      Feature.lambdaExpr ∈ Registry.full.enabled ∧
      Feature.lambdaExpr.trigger = .word "lambda" ∧
      ∃ p, Program.parse "x = f\"\x7blambda\x7d\"\n" = .ok p ∧
        (Mark.name "lambda").OccursIn p.yield := by
  refine ⟨eq_ok_of_toOption (by decide +kernel), Registry.mem_enabled_full _, rfl,
    ⟨[.assign (.ident "x") (.fstring ["", ""] [.ident "lambda"])]⟩,
    Program.parse_eq_ok (by decide +kernel), ?_⟩
  have hfstring : Mark.fstring ["", ""] [.ident "lambda"] ∈
      Program.yield ⟨[.assign (.ident "x") (.fstring ["", ""] [.ident "lambda"])]⟩ := by
    simp [Program.yield, Stmt.yieldBlock, Stmt.yield, Expr.yield]
  exact .placeholder hfstring List.mem_cons_self (.here List.mem_cons_self)

end Offside
