import Offside.Proofs.Yield
import Offside.Transpile

/-!
# Offside.Proofs.Diagnosis

Translation **with diagnostics** and plain translation agree. Main statement:
`transpileChecked_agrees`.

Looking at the tokens for what is not supported may refuse a source before it is
read. Characters that belong to no token, and the keywords that are reported,
stand in no program (`Program.isUsed_of_mem`), so this refuses nothing that could
be read, with one exception: seven of the reported words are no keywords, and a
program may use them as names.
-/

namespace Offside

/-! ### What is looked for -/

/-- The words that are reported although they are names. -/
def Feature.names : List String :=
  ["raise", "with", "nonlocal", "async", "yield", "lambda", "assert"]

theorem Registry.lookup_full_eq_none {trigger : Trigger} :
    Registry.full.lookup trigger = none ↔ ∀ f : Feature, f.trigger ≠ trigger := by
  simp [lookup, enabled, full, Feature.mem_all]

theorem Feature.exists_trigger {word : String} (h : word ∈ names) :
    ∃ f : Feature, f.trigger = .word word := by
  simp only [names, List.mem_cons, List.not_mem_nil, or_false] at h
  rcases h with rfl | rfl | rfl | rfl | rfl | rfl | rfl
  · exact ⟨.raiseStatement, rfl⟩
  · exact ⟨.withStatement, rfl⟩
  · exact ⟨.nonlocalStatement, rfl⟩
  · exact ⟨.asyncDef, rfl⟩
  · exact ⟨.yieldStatement, rfl⟩
  · exact ⟨.lambdaExpr, rfl⟩
  · exact ⟨.assertStatement, rfl⟩

/-- A word that is reported is one of the seven names, or a keyword that the
grammar does not know. -/
theorem Feature.word_of_trigger {f : Feature} {word : String} (h : f.trigger = .word word) :
    word ∈ names ∨ word.toList ∈ Lexeme.keywords ∧ word ∉ Grammar.words := by
  cases f with
  | decorator | dictLiteral => cases h
  | raiseStatement | withStatement | nonlocalStatement | asyncDef | yieldStatement | lambdaExpr
  | assertStatement =>
      obtain rfl := Trigger.word.inj h
      exact .inl (by decide)
  | tryStatement | exceptClause | delStatement | globalStatement | fromImport | asAlias
  | awaitExpr =>
      obtain rfl := Trigger.word.inj h
      exact .inr (by decide)

namespace Diagnostic

variable {registry : Registry} {file : Option String}

/-- Tokens in which nothing is found: no character that belongs to no token, and
no word that is reported. -/
theorem scanFrom_eq_nil {ts : List Token} (herror : ∀ t ∈ ts, t.kind ≠ .error)
    (hword : ∀ t ∈ ts, t.kind = .keyword ∨ t.kind = .identifier →
      registry.lookup (.word t.text) = none) (braces : Nat) :
    scanFrom registry file braces ts = [] := by
  induction ts with
  | nil => rfl
  | cons t ts ih =>
      obtain ⟨hkind, hkinds⟩ := List.forall_mem_cons.1 herror
      obtain ⟨hlookup, hlookups⟩ := List.forall_mem_cons.1 hword
      have hquiet : scanToken registry file braces t = ([], braces) := by
        unfold scanToken
        split
        · rename_i h
          rw [hlookup (.inl h)]
          rfl
        · rename_i h
          rw [hlookup (.inr h)]
          rfl
        · rename_i h
          exact absurd h hkind
        · rfl
      rw [scanFrom, hquiet]
      exact ih hkinds hlookups

theorem lookup_of_scanFrom_eq_nil {ts : List Token} {braces : Nat}
    (h : scanFrom registry file braces ts = []) :
    ∀ t ∈ ts, t.kind = .identifier → registry.lookup (.word t.text) = none := by
  induction ts generalizing braces with
  | nil => simp
  | cons t ts ih =>
      rw [scanFrom, List.append_eq_nil_iff] at h
      refine List.forall_mem_cons.2 ⟨fun hkind => ?_, ih h.2⟩
      have hfirst := h.1
      unfold scanToken at hfirst
      simpa [hkind] using hfirst

theorem severity_of_mem_scanFrom {ts : List Token} {braces : Nat} {d : Diagnostic}
    (h : d ∈ scanFrom registry file braces ts) : d.severity = .error := by
  induction ts generalizing braces with
  | nil => simp [scanFrom] at h
  | cons t ts ih =>
      rw [scanFrom, List.mem_append] at h
      rcases h with hfirst | hrest
      · unfold scanToken at hfirst
        split at hfirst
        · obtain ⟨f, -, rfl⟩ := Option.map_eq_some_iff.1 (Option.mem_toList.1 hfirst)
          rfl
        · obtain ⟨f, -, rfl⟩ := Option.map_eq_some_iff.1 (Option.mem_toList.1 hfirst)
          rfl
        · split at hfirst
          · simp at hfirst
          · split at hfirst
            · simp at hfirst
            · split at hfirst <;> (obtain rfl := List.mem_singleton.1 hfirst; rfl)
        · simp at hfirst
      · exact ih hrest

end Diagnostic

/-! ### The two translations -/

/-- Where nothing is found among the tokens, the diagnostics are those of the
failure. -/
theorem transpileChecked_of_scan_eq_nil {file : Option String} {source : String}
    (h : Diagnostic.scan .full file (Token.ofProgram source.toList) = []) (width : Nat) :
    transpileChecked file source width =
      (transpile source width).mapError fun e => [Diagnostic.ofFailure file e] := by
  have htranspile : (do
      let p ← Program.ofTokens (Token.ofProgram source.toList)
      p.generate width) = transpile source width := rfl
  simp only [transpileChecked, h, htranspile]
  cases transpile source width <;> rfl

theorem transpileChecked_of_scan_ne_nil {file : Option String} {source : String}
    (h : Diagnostic.scan .full file (Token.ofProgram source.toList) ≠ []) (width : Nat) :
    transpileChecked file source width =
      .error (Diagnostic.scan .full file (Token.ofProgram source.toList)) := by
  rw [transpileChecked]
  cases hscan : Diagnostic.scan .full file (Token.ofProgram source.toList) with
  | nil => exact absurd hscan h
  | cons d ds => rfl

theorem exists_program_of_transpile {source : String} {width : Nat} {output : Output}
    (h : transpile source width = .ok output) :
    ∃ p, Program.parse source = .ok p ∧ p.generate width = .ok output := by
  cases hparse : Program.parse source with
  | ok p =>
      simp only [transpile, hparse, bind, Except.bind] at h
      exact ⟨p, rfl, h⟩
  | error failure => simp [transpile, hparse, bind, Except.bind] at h

/-- Nothing is found among the tokens of a program that does not use one of the
seven names. -/
theorem Diagnostic.scan_eq_nil_of_parse {source : String} {p : Program}
    (h : Program.parse source = .ok p)
    (hnames : ∀ t ∈ Token.ofProgram source.toList, t.kind = .identifier → t.text ∉ Feature.names)
    (file : Option String) : scan .full file (Token.ofProgram source.toList) = [] := by
  have hts := Token.readable_ofProgram source.toList
  refine scanFrom_eq_nil (fun t ht hkind => ?_) (fun t ht hkind => ?_) 0
  · have hused := (Program.isUsed_of_mem hts h ht).1
    rw [hkind] at hused
    cases hused
  · refine Registry.lookup_full_eq_none.2 fun f hf => ?_
    obtain ⟨letters, -, htext, hkeyword⟩ := Token.exists_word_of_mem_ofProgram ht hkind
    have hletters : t.text.toList = letters := by rw [htext, String.toList_ofList]
    rcases Feature.word_of_trigger hf with hname | ⟨hreserved, hunknown⟩
    · -- One of the seven names is no keyword.
      rcases hkind with hkind | hkind
      · have hnone : ∀ word ∈ Feature.names, word.toList ∉ Lexeme.keywords := by decide
        exact hnone t.text hname (hletters ▸ hkeyword.1 hkind)
      · exact hnames t ht hkind hname
    · exact hunknown ((Program.isUsed_of_mem hts h ht).2 (hkeyword.2 (hletters ▸ hreserved)))

/-- With diagnostics, a source is translated exactly if it is translated without
them and uses none of the seven names. If it is not, one of the diagnostics is an
error; and if nothing was found among the tokens, they are that of the failure. -/
theorem transpileChecked_agrees (file : Option String) (source : String) (width : Nat) :
    (∀ output, transpileChecked file source width = .ok output ↔
      transpile source width = .ok output ∧
        ∀ t ∈ Token.ofProgram source.toList, t.kind = .identifier →
          t.text ∉ ["raise", "with", "nonlocal", "async", "yield", "lambda", "assert"]) ∧
    (∀ ds, transpileChecked file source width = .error ds → Diagnostic.hasErrors ds = true) ∧
    ∀ e, Diagnostic.scan .full file (Token.ofProgram source.toList) = [] →
      transpile source width = .error e →
      transpileChecked file source width = .error [Diagnostic.ofFailure file e] := by
  by_cases hscan : Diagnostic.scan .full file (Token.ofProgram source.toList) = []
  · rw [transpileChecked_of_scan_eq_nil hscan]
    have hnames : ∀ t ∈ Token.ofProgram source.toList, t.kind = .identifier →
        t.text ∉ Feature.names := by
      intro t ht hkind hname
      obtain ⟨f, hf⟩ := Feature.exists_trigger hname
      have hlookup := Diagnostic.lookup_of_scanFrom_eq_nil hscan t ht hkind
      exact Registry.lookup_full_eq_none.1 hlookup f hf
    cases htranspile : transpile source width with
    | ok output =>
        refine ⟨fun other => ?_, fun ds hds => ?_, fun e _ he => ?_⟩
        · constructor
          · intro h
            exact ⟨congrArg Except.ok (Except.ok.inj h), hnames⟩
          · intro h
            exact congrArg Except.ok (Except.ok.inj h.1)
        · cases hds
        · cases he
    | error failure =>
        refine ⟨fun other => ?_, fun ds hds => ?_, fun e _ he => ?_⟩
        · constructor
          · intro h
            cases h
          · intro h
            cases h.1
        · obtain rfl := Except.error.inj hds
          rfl
        · obtain rfl := Except.error.inj he
          rfl
  · rw [transpileChecked_of_scan_ne_nil hscan]
    refine ⟨fun output => ?_, fun ds hds => ?_, fun e hnil => absurd hnil hscan⟩
    · constructor
      · intro h
        cases h
      · rintro ⟨htranspile, hnames⟩
        obtain ⟨p, hp⟩ : ∃ p, Program.parse source = .ok p := by
          cases hparse : Program.parse source with
          | ok p => exact ⟨p, rfl⟩
          | error failure => simp [transpile, hparse, bind, Except.bind] at htranspile
        exact absurd (Diagnostic.scan_eq_nil_of_parse hp hnames file) hscan
    · obtain rfl := Except.error.inj hds
      obtain ⟨d, ds, hcons⟩ := List.exists_cons_of_ne_nil hscan
      have hd : d ∈ Diagnostic.scan .full file (Token.ofProgram source.toList) := by simp [hcons]
      refine List.any_eq_true.2 ⟨d, hd, ?_⟩
      simpa using Diagnostic.severity_of_mem_scanFrom hd

/-- A name that is reported, in a source that can be translated. -/
theorem transpileChecked_refuses_name :
    transpile "raise = f(x)\n" 4 = .ok ⟨"raise = f(x);", []⟩ ∧
      ∀ output, transpileChecked none "raise = f(x)\n" 4 ≠ .ok output := by
  refine ⟨eq_ok_of_toOption (by decide +kernel), fun output h => ?_⟩
  obtain ⟨-, hnames⟩ := ((transpileChecked_agrees none "raise = f(x)\n" 4).1 output).1 h
  exact hnames ⟨.identifier, "raise", 1⟩ (by decide +kernel) rfl (by decide)

end Offside
