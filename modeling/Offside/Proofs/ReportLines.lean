import Offside.Proofs.Inline
import Offside.Proofs.Offenders
import Offside.Proofs.Positions

/-!
# Offside.Proofs.ReportLines

The text of a report has **one line for each diagnostic**. Main statement:
`transpileChecked_reports_lines`.

Messages quote the source: tokens, stray characters, and the sources of placeholders.
A line end is a token of its own and is shown by its name, so what is quoted has none
in it. This goes through all failures of tokens (`Grammar.Blames`) and of f-strings
(`FString.Fails`), by induction on the length of the f-string.
-/

namespace Offside

open Diagnostic (messageOf)

theorem IsInline.append {a b : String} (ha : IsInline a) (hb : IsInline b) : IsInline (a ++ b) :=
  isInline_append.2 ⟨ha, hb⟩

/-! ### Tokens -/

theorem TokenKind.isInline_name (kind : TokenKind) : IsInline kind.name := by
  cases kind <;> decide

namespace Token

/-- A token is a line end, or there is none in its text. -/
def IsQuotable (t : Token) : Prop := t.kind = .newline ∨ IsInline t.text

theorem IsQuotable.inline {t : Token} (h : t.IsQuotable) (hkind : t.kind ≠ .newline) :
    IsInline t.text := h.resolve_left hkind

theorem isQuotable_eof (line : Nat) : (eof line).IsQuotable :=
  .inr (by decide : IsInline "")

/-- A token is described on one line: a line end by its name, and all others by
their text. -/
theorem IsQuotable.isInline_describe {t : Token} (h : t.IsQuotable) : IsInline t.describe := by
  rw [describe]
  split
  · decide
  · decide
  · rename_i hnewline _
    have hopen : IsInline " '" := by decide
    have hclose : IsInline "'" := by decide
    exact ((t.kind.isInline_name.append hopen).append (h.inline hnewline)).append hclose

/-- The tokens of a program are quotable, since only line ends have a line end in them. -/
theorem isQuotable_of_mem_ofProgram {source : List Char} {t : Token} (h : t ∈ ofProgram source) :
    t.IsQuotable := by
  rcases exists_of_mem_layout h with ⟨n, rfl⟩ | ⟨n, column, rfl | rfl⟩ | ⟨l, hl, n, htoken⟩
  · exact .inl rfl
  · exact .inr (isInline_toString column)
  · exact .inr (isInline_toString column)
  · exact .inr (Lexeme.newline_not_mem_text hl htoken)

theorem isQuotable_of_mem_ofExpression {source : List Char} {line : Nat} {t : Token}
    (h : t ∈ ofExpression source line) : t.IsQuotable :=
  .inr (newline_not_mem_ofExpression h)

end Token

/-! ### Failures

A message quotes at most one token of the source and one text that the grammar
expects.
-/

namespace Grammar

theorem isInline_of_mem_expectedTexts {text : String} (h : text ∈ expectedTexts) :
    IsInline text := by
  have hall : ∀ text ∈ expectedTexts, IsInline text := by decide +kernel
  exact hall text h

/-- What is said of a token in the place of another one. -/
theorem isInline_expected (kind : TokenKind) {text : Option String}
    (htext : ∀ s ∈ text, s ∈ expectedTexts) {t : Token} (ht : t.IsQuotable) :
    IsInline (ParseFault.message (.expected kind text t)) := by
  have hexpected : IsInline "Expected " := by decide
  have hkind := hexpected.append kind.isInline_name
  cases text with
  | none =>
      have hgot : IsInline ", but got " := by decide
      exact (hkind.append hgot).append ht.isInline_describe
  | some text =>
      have hopen : IsInline " '" := by decide
      have hgot : IsInline "', but got " := by decide
      have hquoted := (hkind.append hopen).append (isInline_of_mem_expectedTexts (htext text rfl))
      exact (hquoted.append hgot).append ht.isInline_describe

/-- The message of a failure of tokens stays on one line, as long as those of their
f-strings do. -/
theorem Blames.isInline_messageOf {ctx : Context} {ts : List Token} {e : Failure}
    (h : Blames ctx ts e) (hts : ∀ t ∈ ts, t.IsQuotable)
    (hread : ∀ t ∈ ts, t.kind = .fstring → ∀ failure, ctx.fstring t.text t.line = .error failure →
      IsInline (messageOf failure)) : IsInline (messageOf e) := by
  have hnext {t : Token} (ht : IsNext ctx ts t) : t.IsQuotable := by
    rcases ht with hmem | rfl
    · exact hts t hmem
    · exact Token.isQuotable_eof ctx.endLine
  cases h with
  | expected kind htext ht => exact isInline_expected kind htext (hnext ht)
  | unexpected ht => exact .append (by decide) (hnext ht).isInline_describe
  | unfinished ht => exact .append (by decide) (hts _ ht).isInline_describe
  | invalidTarget _ => exact (by decide : IsInline "Invalid assignment target")
  | invalidNumber ht hkind _ =>
      exact .append (by decide) ((hts _ ht).inline (by simp [hkind]))
  | fstring ht hkind herror => exact hread _ ht hkind e herror

end Grammar

namespace FString

/-- A character of the text changes no fault. -/
theorem Body.fault?_push (c : Char) (b : Body) : (b.push c).fault? = b.fault? := by
  cases b <;> rfl

/-- A brace without its partner opens a placeholder or closes one. -/
theorem eq_of_fault?_cut {content : List Char} {fault : FStringFault}
    (h : (cut content).fault? = some fault) : fault = .unclosed ∨ fault = .unmatched := by
  fun_induction cut content with
  | case1 => cases h
  | case2 cs ih | case5 cs ih =>
      rw [Body.fault?_push] at h
      exact ih h
  | case3 cs _ inner rest hplace ih => exact ih h
  | case4 => exact .inl (Option.some.inj h).symm
  | case6 => exact .inr (Option.some.inj h).symm
  | case7 =>
      rename_i ih
      rw [Body.fault?_push] at h
      exact ih h

/-- The message of a failure in an f-string stays on one line. -/
theorem isInline_messageOf_of_read {content : List Char} (hcontent : '\n' ∉ content) {line : Nat}
    {e : Failure} (h : read content line = .error e) : IsInline (messageOf e) := by
  cases fails_of_read h with
  | braces hfault =>
      rcases eq_of_fault?_cut hfault with rfl | rfl
      · exact (by decide : IsInline "Unclosed \x7b in f-string")
      · exact (by decide : IsInline "Unmatched \x7d in f-string")
  | @trailing source hsource =>
      have hinline : IsInline (String.ofList source) := by
        rw [IsInline, String.toList_ofList]
        exact fun hmem => hcontent ((infix_of_mem_sources hsource).subset hmem)
      exact .append (by decide) hinline
  | @placeholder source _ hsource hblames =>
      refine hblames.isInline_messageOf (fun t ht => Token.isQuotable_of_mem_ofExpression ht) ?_
      intro t ht hkind failure hfailure
      -- The f-string inside is shorter than the text around it.
      have hshorter : t.text.toList.length < content.length := by
        have htext := Token.length_fstring_add_three_le ht hkind
        have hlength := length_source_add_two_le hsource
        omega
      exact isInline_messageOf_of_read (Token.newline_not_mem_ofExpression ht) hfailure
termination_by content.length

end FString

/-- **A source that is not a program is refused in one line.** -/
theorem Program.isInline_messageOf_of_parse {source : String} {e : Failure}
    (h : parse source = .error e) : IsInline (messageOf e) := by
  refine (blames_of_ofTokens h).isInline_messageOf
    (fun t ht => Token.isQuotable_of_mem_ofProgram ht) ?_
  intro t ht hkind failure hfailure
  exact FString.isInline_messageOf_of_read (Token.newline_not_mem_ofProgram ht hkind) hfailure

/-- What is said of an operation has no part of the source in it but its line. -/
theorem Expr.Offends.isInline_messageOf {operation : Expr} {e : Failure}
    (h : operation.Offends e) : IsInline (messageOf e) := by
  cases h with
  | division _ => exact (by decide : IsInline "Division by zero")
  | numberToString | stringToNumber =>
      exact (by decide : IsInline "Addition of string and number detected")

/-- A failure to transpile has a message of one line, at whatever stage it comes. -/
theorem isInline_messageOf_of_transpile {source : String} {width : Nat} {e : Failure}
    (h : transpile source width = .error e) : IsInline (messageOf e) := by
  cases hparse : Program.parse source with
  | error failure =>
      simp only [transpile, hparse, bind, Except.bind] at h
      obtain rfl := Except.error.inj h
      exact Program.isInline_messageOf_of_parse hparse
  | ok p =>
      simp only [transpile, hparse, bind, Except.bind, Program.generate] at h
      cases hcheck : p.checkLiterals with
      | ok _ =>
          rw [hcheck] at h
          cases h
      | error failure =>
          rw [hcheck] at h
          obtain rfl := Except.error.inj h
          obtain ⟨left, op, right, line, -, hfault⟩ := p.exists_binary_of_checkLiterals hcheck
          exact (Expr.offends_of_fault? hfault).isInline_messageOf

/-! ### Diagnostics

Besides failures there are constructs that are not supported and stray characters,
which are found without parsing.
-/

theorem Feature.isInline_message (f : Feature) : IsInline f.message := by
  cases f <;> decide +kernel

namespace Diagnostic

theorem isInline_codeOf (e : Failure) : IsInline (codeOf e) := by
  cases e <;> rw [codeOf] <;> decide +kernel

/-- The diagnostic is about the given file, and its code and its message stay on one
line. -/
structure Fits (file : Option String) (d : Diagnostic) : Prop where
  file : d.file = file
  code : IsInline d.code
  message : IsInline d.message

/-- A failure fits in a report if its message does. -/
theorem fits_ofFailure {e : Failure} (h : IsInline (messageOf e)) (file : Option String) :
    (ofFailure file e).Fits file :=
  ⟨rfl, isInline_codeOf e, h⟩

theorem fits_ofFeature (file : Option String) (line : Nat) (f : Feature) :
    (ofFeature file line f).Fits file := by
  refine ⟨rfl, (by decide : IsInline "KCN-UNSUPPORTED-SYNTAX"), ?_⟩
  exact .append (by decide : IsInline "Unsupported syntax: ") f.isInline_message

theorem fits_ofStray (file : Option String) (line : Nat) (c : Char) {text : String}
    (h : IsInline text) : (ofStray file line c text).Fits file := by
  refine ⟨rfl, (by decide : IsInline "KCN-LEX-ERROR"), ?_⟩
  rw [ofStray]
  dsimp only
  split
  · decide
  · have hopen : IsInline "Unrecognized character '" := by decide
    have hclose : IsInline "'" := by decide
    exact (hopen.append h).append hclose

section

variable {registry : Registry} {file : Option String} {braces : Nat} {d : Diagnostic}

/-- What is found at one token is reported for it. -/
theorem fits_of_mem_scanToken {t : Token} (ht : t.IsQuotable)
    (h : d ∈ (scanToken registry file braces t).1) : d.Fits file := by
  rcases word_or_stray_or_neither t with hword | ⟨c, hc⟩ | ⟨hword, hsilent⟩
  · rw [scanToken_word hword] at h
    obtain ⟨f, -, rfl⟩ := Option.map_eq_some_iff.1 (Option.mem_toList.1 h)
    exact fits_ofFeature file t.line f
  · by_cases hexempt : c = '\x7d' ∧ 0 < braces
    · obtain ⟨rfl, hopen⟩ := hexempt
      rw [scanToken_exempt hc hopen] at h
      cases h
    cases hlookup : registry.lookup (.char c) with
    | some f =>
        rw [scanToken_feature hc hexempt hlookup] at h
        obtain rfl := List.mem_singleton.1 h
        exact fits_ofFeature file t.line f
    | none =>
        rw [scanToken_unknown hc hexempt hlookup] at h
        obtain rfl := List.mem_singleton.1 h
        have hkind : t.kind ≠ .newline := by
          rw [(Token.isStray_iff.1 hc).1]
          decide
        exact fits_ofStray file t.line c (ht.inline hkind)
  · rw [scanToken_silent hword hsilent] at h
    cases h

/-- What is found in tokens is reported for one of them. -/
theorem fits_of_mem_scanFrom {ts : List Token} (hts : ∀ t ∈ ts, t.IsQuotable)
    (h : d ∈ scanFrom registry file braces ts) : d.Fits file := by
  induction ts generalizing braces with
  | nil => cases h
  | cons t ts ih =>
      obtain ⟨ht, hrest⟩ := List.forall_mem_cons.1 hts
      rw [scanFrom_cons, List.mem_append] at h
      rcases h with hfirst | hlater
      · exact fits_of_mem_scanToken ht hfirst
      · exact ih hrest hlater

/-- **Every diagnostic of a source that is refused fits in a report.** -/
theorem fits_of_transpileChecked {source : String} {width : Nat} {ds : List Diagnostic}
    (h : transpileChecked file source width = .error ds) (hd : d ∈ ds) : d.Fits file := by
  by_cases hscan : scan .full file (Token.ofProgram source.toList) = []
  · rw [transpileChecked_of_scan_eq_nil hscan] at h
    cases htranspile : transpile source width with
    | ok output =>
        rw [htranspile] at h
        cases h
    | error failure =>
        rw [htranspile] at h
        obtain rfl := Except.error.inj h
        obtain rfl := List.mem_singleton.1 hd
        exact fits_ofFailure (isInline_messageOf_of_transpile htranspile) file
  · rw [transpileChecked_of_scan_ne_nil hscan] at h
    obtain rfl := Except.error.inj h
    exact fits_of_mem_scanFrom (fun t ht => Token.isQuotable_of_mem_ofProgram ht) hd

end

/-! ### Reports -/

/-- The text of a diagnostic without its line end. -/
def headline (d : Diagnostic) : String :=
  "[" ++ d.code ++ "] " ++ d.file.getD "<input>" ++ ":" ++ toString d.line ++ " " ++ d.message

/-- The first line of a diagnostic is all there is if the file's name is on one line. -/
theorem Fits.isInline_headline {file : Option String} {d : Diagnostic} (h : d.Fits file)
    (hfile : ∀ name ∈ file, IsInline name) : IsInline d.headline := by
  have hname : IsInline (d.file.getD "<input>") := by
    rw [h.file]
    cases file with
    | none => exact (by decide : IsInline "<input>")
    | some name => exact hfile name rfl
  have hcode := (IsInline.append (by decide : IsInline "[") h.code).append
    (by decide : IsInline "] ")
  have hline := ((hcode.append hname).append (by decide : IsInline ":")).append
    (isInline_toString d.line)
  exact (hline.append (by decide : IsInline " ")).append h.message

/-- Lines without a line end in them are read back from the text that they are put
together to. -/
theorem splitOn_allToText {ds : List Diagnostic} (h : ∀ d ∈ ds, IsInline d.headline) :
    ((allToText ds).toList.splitOn '\n').map String.ofList = ds.map headline ++ [""] := by
  induction ds with
  | nil => rfl
  | cons d ds ih =>
      obtain ⟨hd, hds⟩ := List.forall_mem_cons.1 h
      have htext : (allToText (d :: ds)).toList =
          d.headline.toList ++ '\n' :: (allToText ds).toList := by
        have hjoin : allToText (d :: ds) = d.headline ++ "\n" ++ allToText ds := by
          rw [allToText, List.map_cons, String.join_cons]
          rfl
        rw [hjoin, String.toList_append, String.toList_append, List.append_assoc]
        rfl
      rw [htext, List.splitOn_append_cons_self_of_not_mem hd, List.map_cons, ih hds,
        String.ofList_toList]
      rfl

end Diagnostic

/-- **One line for each diagnostic.** No message of a source that is not translated has a
line end in it; and if the name of the file has none, then the lines of the report are
those of the diagnostics, in their order, each with its line end. -/
theorem transpileChecked_reports_lines {file : Option String} {source : String} {width : Nat}
    {ds : List Diagnostic} (h : transpileChecked file source width = .error ds) :
    (∀ d ∈ ds, IsInline d.message) ∧
      ((∀ name ∈ file, IsInline name) →
        ((Diagnostic.allToText ds).toList.splitOn '\n').map String.ofList =
          ds.map Diagnostic.headline ++ [""]) := by
  constructor
  · intro d hd
    exact (Diagnostic.fits_of_transpileChecked h hd).message
  · intro hfile
    refine Diagnostic.splitOn_allToText fun d hd => ?_
    exact (Diagnostic.fits_of_transpileChecked h hd).isInline_headline hfile

/-- An f-string on the second line, with two names in a placeholder of another one. -/
def crowdedPlaceholder : String := "a = b\nc = f\"\x7bf'\x7bd e\x7d'\x7d\"\n"

theorem transpileChecked_reports_crowdedPlaceholder :
    transpileChecked (some "c.py") crowdedPlaceholder 4 =
        .error [⟨"KCN-FSTRING-ERROR", "Unexpected trailing input in f-string expression: d e",
          .error, some "c.py", 2, "parse"⟩] ∧
      ∀ ds, transpileChecked (some "c.py") crowdedPlaceholder 4 = .error ds →
        ((Diagnostic.allToText ds).toList.splitOn '\n').map String.ofList =
          ds.map Diagnostic.headline ++ [""] := by
  refine ⟨by decide +kernel, fun ds hds => ?_⟩
  refine (transpileChecked_reports_lines hds).2 fun name hname => ?_
  obtain rfl := Option.some.inj hname
  decide

end Offside
