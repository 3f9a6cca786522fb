import Offside.Ast.Equality
import Offside.Proofs.Derivation.Failure
import Offside.Proofs.Occurrence

/-!
# Offside.Proofs.EmptyPlaceholders

The line on which a **failure in an f-string** is reported. Main statement:
`FString.line?_eq_some_iff_of_read`, by which it is the line of the f-string, unless
reading stops at a placeholder without tokens.

A line comes from a token, and the tokens of all placeholders, also of those inside
other placeholders, stand on the line of the f-string. Only where there is no token
at all, the end of the tokens has no line to go by, and the first line is reported
(`FString.StopsAtBlank`).
-/

namespace Offside

/-! ### Failures of tokens -/

open Grammar in
/-- A failure of tokens is put on the line of one of them, or it is that of an
f-string among them. Without any tokens it is put on the first line. -/
theorem Grammar.Blames.line_cases {r : Reader} {ts : List Token} {e : Failure}
    (h : Blames ⟨endLine ts, r⟩ ts e) :
    (ts = [] ∧ e.line? = some 1) ∨ (∃ t ∈ ts, e.line? = some t.line) ∨
      ∃ t ∈ ts, t.kind = .fstring ∧ r t.text t.line = .error e := by
  have hnext {t : Token} (ht : IsNext ⟨endLine ts, r⟩ ts t) :
      (ts = [] ∧ some t.line = some 1) ∨ ∃ u ∈ ts, some t.line = some u.line := by
    rcases ht with ht | rfl
    · exact .inr ⟨t, ht, rfl⟩
    · cases hlast : ts.getLast? with
      | none => exact .inl ⟨List.getLast?_eq_none_iff.1 hlast, by simp [Token.eof, endLine, hlast]⟩
      | some u => exact .inr ⟨u, List.mem_of_getLast? hlast, by simp [Token.eof, endLine, hlast]⟩
  cases h with
  | expected _ _ ht | unexpected ht =>
      rcases hnext ht with hnone | hline
      · exact .inl hnone
      · exact .inr (.inl hline)
  | unfinished ht | invalidTarget ht | invalidNumber ht _ _ => exact .inr (.inl ⟨_, ht, rfl⟩)
  | fstring ht hkind herror => exact .inr (.inr ⟨_, ht, hkind, herror⟩)

namespace FString

/-! ### Where reading stops -/

/-- A placeholder does not hold an expression. -/
def isUnread (expression : List Char → Except Failure Expr) (source : List Char) : Bool :=
  !(expression source).isOk

theorem exists_error_of_isUnread {expression : List Char → Except Failure Expr}
    {source : List Char} (h : isUnread expression source = true) :
    ∃ e, expression source = .error e := by
  cases hread : expression source with
  | error e => exact ⟨e, rfl⟩
  | ok _ =>
      rw [isUnread, hread] at h
      cases h

theorem isUnread_of_error {expression : List Char → Except Failure Expr} {source : List Char}
    {e : Failure} (h : expression source = .error e) : isUnread expression source = true := by
  rw [isUnread, h]
  rfl

/-- Reading a text fails at the first placeholder that holds no expression. -/
theorem Body.read_of_find? {line : Nat} {expression : List Char → Except Failure Expr} {b : Body}
    {source : List Char} {e : Failure} (h : b.sources.find? (isUnread expression) = some source)
    (he : expression source = .error e) : b.read line expression = .error e := by
  induction b with
  | text chars | broken fault => cases h
  | hole chars first rest ih =>
      rw [sources, List.find?_cons] at h
      cases hfirst : expression first with
      | error failure =>
          rw [isUnread_of_error hfirst] at h
          obtain rfl := Option.some.inj h
          rw [Body.read, he]
          rfl
      | ok found =>
          have hread : isUnread expression first = false := by
            rw [isUnread, hfirst]
            rfl
          rw [hread] at h
          rw [Body.read, hfirst, ih h]
          rfl

/-- The placeholder at which reading a text stops. -/
def stop? (content : List Char) (line : Nat) : Option (List Char) :=
  (cut content).sources.find? (isUnread (embedded Program.fstringReader line))

theorem mem_sources_of_stop? {content source : List Char} {line : Nat}
    (h : stop? content line = some source) : source ∈ (cut content).sources :=
  List.mem_of_find?_eq_some h

/-- A text fails with the failure of the placeholder at which reading stops. -/
theorem embedded_of_stop? {content source : List Char} {line : Nat} {e : Failure}
    (h : stop? content line = some source) (hread : read content line = .error e) :
    embedded Program.fstringReader line source = .error e := by
  obtain ⟨failure, hfailure⟩ := exists_error_of_isUnread (List.find?_some h)
  have hcontent : read content line = .error failure := by
    rw [read_eq]
    exact Body.read_of_find? h hfailure
  rw [hfailure]
  exact congrArg _ (Except.error.inj (hcontent.symm.trans hread))

/-- If reading stops at no placeholder, it fails because of a brace. -/
theorem exists_fault_of_stop?_eq_none {content : List Char} {line : Nat} {e : Failure}
    (h : stop? content line = none) (hread : read content line = .error e) :
    ∃ fault, e = .fstring line fault := by
  rw [read_eq] at hread
  rcases Body.read_eq_error hread with ⟨fault, -, rfl⟩ | ⟨source, hsource, herror⟩
  · exact ⟨fault, rfl⟩
  · exact absurd (isUnread_of_error herror) (List.find?_eq_none.1 h source hsource)

/-- Reading the text of an f-string on `line` stops at a placeholder without tokens:
at one of its own, or at one of an f-string whose failure is that of a placeholder. -/
inductive StopsAtBlank (line : Nat) : List Char → Prop where
  | blank {content source : List Char} :
      stop? content line = some source → Token.ofExpression source line = [] →
      StopsAtBlank line content
  | nested {content source : List Char} {t : Token} {e : Failure} :
      stop? content line = some source → t ∈ Token.ofExpression source line →
      t.kind = .fstring → embedded Program.fstringReader line source = .error e →
      read t.text.toList line = .error e → StopsAtBlank line t.text.toList →
      StopsAtBlank line content

/-! ### The line of a failure -/

/-- Without tokens there is no expression, and no line to report but the first. -/
theorem whole_nil (r : Grammar.Reader) (trailing : Failure) :
    whole r trailing [] = .error (.parse 1 (.unexpected (Token.eof 1))) := by
  rw [whole, Grammar.expression, Grammar.unary, Grammar.primary, Grammar.atom]
  rfl

/-- What is reported for a placeholder without tokens, at any depth. -/
theorem StopsAtBlank.eq_unexpected {content : List Char} {line : Nat}
    (h : StopsAtBlank line content) {e : Failure} (hread : read content line = .error e) :
    e = .parse 1 (.unexpected (Token.eof 1)) := by
  induction h with
  | blank hstop htokens =>
      have hsource := embedded_of_stop? hstop hread
      rw [embedded, htokens, whole_nil] at hsource
      exact (Except.error.inj hsource).symm
  | nested hstop _ _ hsource hinner _ ih =>
      obtain rfl := Except.error.inj ((embedded_of_stop? hstop hread).symm.trans hsource)
      exact ih hinner

/-- A failure is put on the line of the f-string, or reading has stopped at a
placeholder without tokens. -/
theorem line?_or_stopsAtBlank {content : List Char} (hcontent : '\n' ∉ content) {line : Nat}
    {e : Failure} (h : read content line = .error e) :
    e.line? = some line ∨ StopsAtBlank line content := by
  cases hstop : stop? content line with
  | none =>
      obtain ⟨fault, rfl⟩ := exists_fault_of_stop?_eq_none hstop h
      exact .inl rfl
  | some source =>
      have hmem := mem_sources_of_stop? hstop
      have hsource := embedded_of_stop? hstop h
      have hline : ∀ t ∈ Token.ofExpression source line, t.line = line := fun t ht =>
        Token.line_of_mem_ofExpression
          (fun hnewline => hcontent ((infix_of_mem_sources hmem).subset hnewline)) ht
      rcases whole_eq_error hsource with rfl | hblames
      · exact .inl rfl
      · rcases hblames.line_cases with ⟨htokens, -⟩ | ⟨t, ht, hfailure⟩ | ⟨t, ht, hkind, hfailure⟩
        · exact .inr (.blank hstop htokens)
        · exact .inl (by rw [hfailure, hline t ht])
        · -- The f-string inside is shorter than the text around it.
          have hshorter : t.text.toList.length < content.length := by
            have htext := Token.length_fstring_add_three_le ht hkind
            have hlength := length_source_add_two_le hmem
            omega
          rw [hline t ht] at hfailure
          rcases line?_or_stopsAtBlank (Token.newline_not_mem_ofExpression ht) hfailure with
            hinner | hinner
          · exact .inl hinner
          · exact .inr (.nested hstop ht hkind hsource hfailure hinner)
termination_by content.length

theorem line?_of_read {content : List Char} (hcontent : '\n' ∉ content) {line : Nat}
    {e : Failure} (h : read content line = .error e) :
    e.line? = some line ∨ e.line? = some 1 := by
  refine (line?_or_stopsAtBlank hcontent h).imp_right fun hblank => ?_
  rw [hblank.eq_unexpected h]
  rfl

/-- **The line of a failure in an f-string.** It is the line of the f-string if and
only if this is the first line or reading does not stop at a placeholder without
tokens. What is reported for such a placeholder is the end of its tokens, on the first
line. -/
theorem line?_eq_some_iff_of_read {content : List Char} (hcontent : '\n' ∉ content) {line : Nat}
    {e : Failure} (h : read content line = .error e) :
    (e.line? = some line ↔ line = 1 ∨ ¬ StopsAtBlank line content) ∧
      (StopsAtBlank line content → e = .parse 1 (.unexpected (Token.eof 1))) := by
  refine ⟨⟨fun hline => ?_, ?_⟩, fun hblank => hblank.eq_unexpected h⟩
  · by_cases hblank : StopsAtBlank line content
    · rw [hblank.eq_unexpected h] at hline
      exact .inl (Option.some.inj hline).symm
    · exact .inr hblank
  · rintro (rfl | hblank)
    · exact (line?_of_read hcontent h).elim id id
    · exact (line?_or_stopsAtBlank hcontent h).resolve_right hblank

/-- Two placeholders in f-strings on the third line, each inside another one: the
first holds two expressions, the second none. -/
theorem line?_eq_some_iff_of_nested :
    (read "\x7bf'\x7ba b\x7d'\x7d".toList 3 = .error (.fstring 3 (.trailing "a b")) ∧
      ¬ StopsAtBlank 3 "\x7bf'\x7ba b\x7d'\x7d".toList) ∧
    read "\x7bf'\x7b \x7d'\x7d".toList 3 = .error (.parse 1 (.unexpected (Token.eof 1))) ∧
      StopsAtBlank 3 "\x7bf'\x7b \x7d'\x7d".toList := by
  have htwo : read "\x7bf'\x7ba b\x7d'\x7d".toList 3 = .error (.fstring 3 (.trailing "a b")) := by
    decide +kernel
  have hnone : read "\x7bf'\x7b \x7d'\x7d".toList 3 =
      .error (.parse 1 (.unexpected (Token.eof 1))) := by decide +kernel
  have hiff := (line?_eq_some_iff_of_read (by decide) htwo).1
  have hiff' := (line?_eq_some_iff_of_read (by decide) hnone).1
  refine ⟨⟨htwo, (hiff.1 rfl).resolve_left (by decide)⟩, hnone, ?_⟩
  exact Classical.byContradiction fun hblank => absurd (hiff'.2 (.inr hblank)) (by decide)

/-- The end of an empty placeholder on the third line is put on the first one. -/
theorem read_emptyPlaceholder_reports_first_line :
    '\n' ∉ "\x7b\x7d".toList ∧
      read "\x7b\x7d".toList 3 = .error (.parse 1 (.unexpected (Token.eof 1))) ∧
      (Failure.parse 1 (.unexpected (Token.eof 1))).line? ≠ some 3 := by
  refine ⟨by decide, by decide +kernel, by decide⟩

end FString

end Offside
