import Offside.Proofs.Diagnosis
import Offside.Proofs.EmptyPlaceholders

/-!
# Offside.Proofs.Positions

Every **reported line** is a line of the source. Main statement:
`isLineOf_of_reported`.

A line comes from a token, and the lines of tokens go up from the first line of the
source to its last (`Token.Spans`). What is reported without a token is put on the
first line: the end of a placeholder without tokens, and constructs that have
become comments. The f-strings and their placeholders bring no line of their own
(`FString.line?_of_read`).
-/

namespace Offside

/-! ### The lines of tokens -/

namespace Token

/-- Tokens in the order of their lines, all of them from `first` to `last`. -/
structure Spans (first last : Nat) (ts : List Token) : Prop where
  ordered : ts.Pairwise fun t u => t.line ≤ u.line
  within : ∀ t ∈ ts, first ≤ t.line ∧ t.line ≤ last

namespace Spans

variable {first middle last : Nat} {ts us : List Token}

theorem of_line (h : ∀ t ∈ ts, t.line = first) : Spans first first ts := by
  refine ⟨List.pairwise_iff_forall_sublist.2 fun {t u} hsub => ?_, fun t ht => ?_⟩
  · have ht := h t (hsub.subset (by simp))
    have hu := h u (hsub.subset (by simp))
    omega
  · have hline := h t ht
    omega

theorem append (hts : Spans first middle ts) (hus : Spans middle last us) (hfirst : first ≤ middle)
    (hlast : middle ≤ last) : Spans first last (ts ++ us) := by
  refine ⟨List.pairwise_append.2 ⟨hts.ordered, hus.ordered, fun t ht u hu => ?_⟩,
    List.forall_mem_append.2 ⟨fun t ht => ?_, fun u hu => ?_⟩⟩
  · have hbefore := (hts.within t ht).2
    have hafter := (hus.within u hu).1
    omega
  · have hline := hts.within t ht
    omega
  · have hline := hus.within u hu
    omega

end Spans

theorem line_of_mem_shiftAt {line : Nat} {ls : List Lexeme} {blocks : List Nat} {t : Token}
    (h : t ∈ (shiftAt line ls blocks).1) : t.line = line := by
  unfold shiftAt at h
  split at h
  · rw [shift] at h
    split at h
    · obtain rfl := List.mem_singleton.1 h
      rfl
    · obtain ⟨column, -, rfl⟩ := List.mem_map.1 h
      rfl
  · cases h

/-- The tokens of lexemes stand on the lines that these go over. -/
theorem spans_layout (line : Nat) (blocks : List Nat) (ls : List Lexeme) :
    Spans line (line + ls.count .newline) (layout line blocks ls) := by
  induction ls generalizing line blocks with
  | nil =>
      refine .of_line fun t ht => ?_
      obtain ⟨column, -, rfl⟩ := List.mem_map.1 ht
      rfl
  | cons l ls ih =>
      by_cases hl : l = .newline
      · subst hl
        have hnewline : Spans line line [newline line] := .of_line (by simp [newline])
        have hshift : Spans (line + 1) (line + 1) (shiftAt (line + 1) ls blocks).1 :=
          .of_line fun t ht => line_of_mem_shiftAt ht
        have hrest := hshift.append (ih (line + 1) (shiftAt (line + 1) ls blocks).2) (by omega)
          (by omega)
        rw [layout_newline, lineOn, List.count_cons_self, Nat.add_comm _ 1, ← Nat.add_assoc]
        refine hnewline.append ⟨hrest.ordered, fun t ht => ?_⟩ (by omega) (by omega)
        have hline := hrest.within t ht
        omega
      · have htoken : Spans line line (l.token? line).toList :=
          .of_line fun t ht => (Lexeme.token?_line (Option.mem_toList.1 ht)).1
        rw [layout_cons hl, List.count_cons_of_ne hl]
        exact htoken.append (ih line blocks) (by omega) (by omega)

theorem spans_ofProgram (source : List Char) :
    Spans 1 (1 + source.count '\n') (ofProgram source) := by
  rw [← Lexeme.count_newline_scan]
  exact spans_layout 1 [] (Lexeme.scan source)

end Token

/-! ### The lines of diagnostics -/

namespace Diagnostic

variable {registry : Registry} {file : Option String}

/-- At most one diagnostic is made of a token, and it is put on its line. -/
theorem map_line_scanToken (braces : Nat) (t : Token) :
    ((scanToken registry file braces t).1.map line).Sublist [t.line] := by
  have hword : (((registry.lookup (.word t.text)).map (ofFeature file t.line)).toList.map
      line).Sublist [t.line] := by
    cases registry.lookup (.word t.text) with
    | none => exact List.nil_sublist _
    | some f => exact List.Sublist.refl _
  unfold scanToken
  split
  · exact hword
  · exact hword
  · split
    · exact List.nil_sublist _
    · split
      · exact List.nil_sublist _
      · split <;> exact List.Sublist.refl _
  · exact List.nil_sublist _

theorem map_line_scanFrom (braces : Nat) (ts : List Token) :
    ((scanFrom registry file braces ts).map line).Sublist (ts.map Token.line) := by
  induction ts generalizing braces with
  | nil => exact List.Sublist.refl _
  | cons t ts ih =>
      rw [scanFrom, List.map_append]
      exact (map_line_scanToken braces t).append (ih _)

end Diagnostic

/-! ### The lines of failures -/

open Grammar in
/-- A failure of tokens is put on the line of one of them, as long as those of their
f-strings are put on the lines of these. Without any tokens it is put on the first
line. -/
theorem Grammar.Blames.exists_line {r : Reader} {ts : List Token} {e : Failure}
    (h : Blames ⟨endLine ts, r⟩ ts e)
    (hread : ∀ t ∈ ts, t.kind = .fstring → ∀ failure, r t.text t.line = .error failure →
      failure.line? = some t.line ∨ failure.line? = some 1) :
    e.line? = some 1 ∨ ∃ t ∈ ts, e.line? = some t.line := by
  rcases h.line_cases with ⟨-, hline⟩ | hline | ⟨t, ht, hkind, herror⟩
  · exact .inl hline
  · exact .inr hline
  · rcases hread t ht hkind e herror with hline | hline
    · exact .inr ⟨t, ht, hline⟩
    · exact .inl hline

/-! ### The lines of programs -/

/-- The lines of a source. -/
def IsLineOf (source : String) (line : Nat) : Prop :=
  1 ≤ line ∧ line ≤ 1 + source.toList.count '\n'

theorem isLineOf_one (source : String) : IsLineOf source 1 := by
  constructor <;> omega

theorem isLineOf_of_mem {source : String} {t : Token} (h : t ∈ Token.ofProgram source.toList) :
    IsLineOf source t.line :=
  (Token.spans_ofProgram source.toList).within t h

theorem Program.isLineOf_of_parse {source : String} {e : Failure} (h : parse source = .error e) :
    ∃ line, e.line? = some line ∧ IsLineOf source line := by
  have hread : ∀ t ∈ Token.ofProgram source.toList, t.kind = .fstring → ∀ failure,
      fstringReader t.text t.line = .error failure →
      failure.line? = some t.line ∨ failure.line? = some 1 :=
    fun t ht hkind failure hfailure =>
      FString.line?_of_read (Token.newline_not_mem_ofProgram ht hkind) hfailure
  rcases (blames_of_ofTokens h).exists_line hread with hline | ⟨t, ht, hline⟩
  · exact ⟨1, hline, isLineOf_one source⟩
  · exact ⟨t.line, hline, isLineOf_of_mem ht⟩

theorem Program.isLineOf_of_mem_nodes {source : String} {p : Program} (h : parse source = .ok p)
    {left right : Expr} {op : BinaryOp} {line : Nat}
    (hnode : .binary left op right line ∈ p.nodes) : IsLineOf source line := by
  have hoccurs := Stmt.occursIn_yieldBlock p.statements hnode
  obtain ⟨t, ht, -, -, rfl⟩ :=
    exists_token_of_occursIn (Token.readable_ofProgram source.toList) h hoccurs
  obtain ⟨u, hu, hline⟩ := ht.exists_line fun u hu hkind => Token.newline_not_mem_ofProgram hu hkind
  rw [← hline]
  exact isLineOf_of_mem hu

theorem isLineOf_of_transpile {source : String} {width : Nat} {e : Failure}
    (h : transpile source width = .error e) :
    ∃ line, e.line? = some line ∧ IsLineOf source line := by
  cases hparse : Program.parse source with
  | error failure =>
      simp only [transpile, hparse, bind, Except.bind] at h
      obtain rfl := Except.error.inj h
      exact Program.isLineOf_of_parse hparse
  | ok p =>
      simp only [transpile, hparse, bind, Except.bind, Program.generate] at h
      cases hcheck : p.checkLiterals with
      | ok _ =>
          rw [hcheck] at h
          cases h
      | error failure =>
          rw [hcheck] at h
          obtain rfl := Except.error.inj h
          obtain ⟨left, op, right, line, hnode, hfault⟩ := p.exists_binary_of_checkLiterals hcheck
          exact ⟨line, Expr.line?_of_fault? hfault, Program.isLineOf_of_mem_nodes hparse hnode⟩

theorem isLineOf_of_scan {source : String} {registry : Registry} {file : Option String}
    {d : Diagnostic}
    (h : d ∈ Diagnostic.scan registry file (Token.ofProgram source.toList)) :
    IsLineOf source d.line := by
  have hlines : ((Diagnostic.scan registry file (Token.ofProgram source.toList)).map
      Diagnostic.line).Sublist ((Token.ofProgram source.toList).map Token.line) :=
    Diagnostic.map_line_scanFrom 0 _
  obtain ⟨t, ht, hline⟩ := List.mem_map.1 (hlines.subset (List.mem_map_of_mem h))
  rw [← hline]
  exact isLineOf_of_mem ht

/-- The failures, the diagnostics and the warnings of a source, and the operations
of its program, are put on lines of the source; and what is found among the tokens
is reported in the order of the lines. -/
theorem isLineOf_of_reported (source : String) :
    (∀ width e, transpile source width = .error e →
      ∃ line, e.line? = some line ∧ IsLineOf source line) ∧
    (∀ file width ds, transpileChecked file source width = .error ds →
      ∀ d ∈ ds, IsLineOf source d.line) ∧
    (∀ file width output, transpileChecked file source width = .ok output →
      ∀ d ∈ output.warnings file, IsLineOf source d.line) ∧
    (∀ p, Program.parse source = .ok p → ∀ left op right line,
      Expr.binary left op right line ∈ p.nodes → IsLineOf source line) ∧
    ∀ registry file,
      ((Diagnostic.scan registry file (Token.ofProgram source.toList)).map
        Diagnostic.line).Pairwise (· ≤ ·) := by
  refine ⟨fun width e h => isLineOf_of_transpile h, fun file width ds h d hd => ?_,
    fun file width output _ d hd => ?_,
    fun p h left op right line hnode => Program.isLineOf_of_mem_nodes h hnode,
    fun registry file => ?_⟩
  · by_cases hscan : Diagnostic.scan .full file (Token.ofProgram source.toList) = []
    · rw [transpileChecked_of_scan_eq_nil hscan] at h
      cases htranspile : transpile source width with
      | ok output =>
          rw [htranspile] at h
          cases h
      | error failure =>
          rw [htranspile] at h
          obtain rfl := Except.error.inj h
          obtain rfl := List.mem_singleton.1 hd
          obtain ⟨line, hline, hbounds⟩ := isLineOf_of_transpile htranspile
          rw [Diagnostic.ofFailure, hline]
          exact hbounds
    · rw [transpileChecked_of_scan_ne_nil hscan] at h
      obtain rfl := Except.error.inj h
      exact isLineOf_of_scan hd
  · obtain ⟨degradation, -, rfl⟩ := List.mem_map.1 hd
    exact isLineOf_one source
  · have hordered := List.pairwise_map.2 (Token.spans_ofProgram source.toList).ordered
    exact hordered.sublist (Diagnostic.map_line_scanFrom 0 _)

/-- An f-string on the second line, with an empty placeholder inside a placeholder. -/
def emptyPlaceholder : String := "a = b\nc = f\"\x7bd + f'\x7b\x7d'\x7d\"\n"

/-- The end of an empty placeholder is put on the first line. -/
theorem isLineOf_of_emptyPlaceholder :
    transpile emptyPlaceholder 4 = .error (.parse 1 (.unexpected (Token.eof 1))) ∧
      IsLineOf emptyPlaceholder 1 := by
  have hfails : transpile emptyPlaceholder 4 = .error (.parse 1 (.unexpected (Token.eof 1))) := by
    decide +kernel
  obtain ⟨line, hline, hbounds⟩ := (isLineOf_of_reported emptyPlaceholder).1 4 _ hfails
  obtain rfl := Option.some.inj hline
  exact ⟨hfails, hbounds⟩

end Offside
