import Offside.Grammar.FString

/-!
# Offside.Grammar.Nesting

F-strings inside f-strings. A placeholder is shorter than the text around it by
its two braces, and an f-string in it by its marker and two quotes more. Main
statement: `FString.read_eq`, by which `FString.read` reads the f-strings inside
by itself, whatever they are.

An expression is read in the same way by two readers of f-strings that agree on
its tokens (`Grammar.expression_congr`).
-/

namespace Offside

namespace Grammar

/-- Two readers agree on the f-strings among the tokens. -/
def Agree (f g : Reader) (ts : List Token) : Prop :=
  ∀ t ∈ ts, t.kind = .fstring → f t.text t.line = g t.text t.line

theorem Agree.mono {f g : Reader} {ts us : List Token} (h : Agree f g ts) (hs : us <:+ ts) :
    Agree f g us := fun t ht => h t (hs.subset ht)

theorem Agree.tail {f g : Reader} {t : Token} {ts : List Token} (h : Agree f g (t :: ts)) :
    Agree f g ts := h.mono (List.suffix_cons t ts)

section

variable {n : Nat} {f g : Reader}

mutual

theorem expression_congr {m : Nat} {ts : List Token} (h : Agree f g ts) :
    expression ⟨n, f⟩ m ts = expression ⟨n, g⟩ m ts := by
  rw [expression, expression, unary_congr h]
  exact Step.andThen_congr fun left us _ hs => climb_congr (h.mono hs)
termination_by 8 * ts.length + 5

theorem climb_congr {m : Nat} {left : Expr} {ts : List Token} (h : Agree f g ts) :
    climb ⟨n, f⟩ m left ts = climb ⟨n, g⟩ m left ts := by
  match ts with
  | [] => rw [climb, climb]
  | t :: us =>
    have hright : ∀ p, expression ⟨n, f⟩ p us = expression ⟨n, g⟩ p us := fun p =>
      expression_congr h.tail
    rw [climb, climb]
    split
    · rfl
    · split
      · rfl
      · rw [hright]
        congr 2
        exact Step.andThen_congr fun right vs _ hs => climb_congr (h.tail.mono hs)
termination_by 8 * ts.length
decreasing_by all_goals simp only [List.length_cons]; omega

theorem unary_congr {ts : List Token} (h : Agree f g ts) :
    unary ⟨n, f⟩ ts = unary ⟨n, g⟩ ts := by
  match ts with
  | [] => rw [unary, unary, primary_congr h]
  | t :: us =>
    have hop : unary ⟨n, f⟩ us = unary ⟨n, g⟩ us := unary_congr h.tail
    have hbase : primary ⟨n, f⟩ (t :: us) = primary ⟨n, g⟩ (t :: us) := primary_congr h
    rw [unary, unary, hop, hbase]
termination_by 8 * ts.length + 4
decreasing_by all_goals grind

theorem primary_congr {ts : List Token} (h : Agree f g ts) :
    primary ⟨n, f⟩ ts = primary ⟨n, g⟩ ts := by
  rw [primary, primary, atom_congr h]
  exact Step.andThen_congr fun base us _ hs => trailers_congr (h.mono hs)
termination_by 8 * ts.length + 3

theorem trailers_congr {base : Expr} {ts : List Token} (h : Agree f g ts) :
    trailers ⟨n, f⟩ base ts = trailers ⟨n, g⟩ base ts := by
  match ts with
  | [] => rw [trailers, trailers]
  | t :: us =>
    rw [trailers, trailers, arguments_congr h.tail, expression_congr h.tail]
    split
    · congr 2
      exact Step.andThen_congr fun name vs _ hs => trailers_congr (h.tail.mono hs)
    · split
      · congr 2
        exact Step.andThen_congr fun args vs _ hs => trailers_congr (h.tail.mono hs)
      · split
        · congr 2
          refine Step.andThen_congr fun position vs _ hs => ?_
          exact Step.andThen_congr fun _ ws _ hw => trailers_congr (h.tail.mono (hw.trans hs))
        · rfl
termination_by 8 * ts.length
decreasing_by all_goals simp only [List.length_cons]; omega

theorem atom_congr {ts : List Token} (h : Agree f g ts) : atom ⟨n, f⟩ ts = atom ⟨n, g⟩ ts := by
  match ts with
  | [] => rw [atom, atom]
  | t :: us =>
    rw [atom, atom]
    split
    · rfl
    · rfl
    · rename_i hkind
      simp only [h t List.mem_cons_self hkind]
    · rfl
    · rfl
    · rw [expression_congr h.tail, items_congr h.tail]
    · rfl
termination_by 8 * ts.length + 2
decreasing_by all_goals simp only [List.length_cons]; omega

theorem arguments_congr {ts : List Token} (h : Agree f g ts) :
    arguments ⟨n, f⟩ ts = arguments ⟨n, g⟩ ts := by
  rw [arguments, arguments, expression_congr h]
  split
  · rfl
  · refine Step.andThen_congr fun arg us _ hs => ?_
    rw [moreArguments_congr (h.mono hs)]
termination_by 8 * ts.length + 6
decreasing_by all_goals omega

theorem moreArguments_congr {ts : List Token} (h : Agree f g ts) :
    moreArguments ⟨n, f⟩ ts = moreArguments ⟨n, g⟩ ts := by
  match ts with
  | [] => rw [moreArguments, moreArguments]
  | t :: us =>
    rw [moreArguments, moreArguments, expression_congr h.tail]
    split
    · congr 1
      refine Step.andThen_congr fun arg vs _ hs => ?_
      rw [moreArguments_congr (h.tail.mono hs)]
    · rfl
termination_by 8 * ts.length
decreasing_by all_goals simp only [List.length_cons]; omega

theorem items_congr {ts : List Token} (h : Agree f g ts) :
    items ⟨n, f⟩ ts = items ⟨n, g⟩ ts := by
  rw [items, items, expression_congr h]
  split
  · rfl
  · refine Step.andThen_congr fun item us _ hs => ?_
    rw [moreItems_congr (h.mono hs)]
termination_by 8 * ts.length + 6
decreasing_by all_goals omega

theorem moreItems_congr {ts : List Token} (h : Agree f g ts) :
    moreItems ⟨n, f⟩ ts = moreItems ⟨n, g⟩ ts := by
  match ts with
  | [] => rw [moreItems, moreItems]
  | t :: us => rw [moreItems, moreItems, items_congr h.tail]
termination_by 8 * ts.length
decreasing_by all_goals simp only [List.length_cons]; omega

end

end

end Grammar

/-! ### F-strings among lexemes -/

/-- A lexeme of a text is no longer than the text. -/
theorem Lexeme.length_spelling_le {l : Lexeme} {source : List Char} (h : l ∈ scan source) :
    l.spelling.length ≤ source.length := by
  obtain ⟨before, after, hscan⟩ := List.append_of_mem h
  have hall := flatMap_spelling_scan source
  rw [hscan, List.flatMap_append, List.flatMap_cons] at hall
  rw [← hall]
  simp only [List.length_append]
  omega

/-- The tokens of lexemes come from lexemes. -/
theorem Token.exists_lexeme_of_mem_flatten {t : Token} {line : Nat} {ls : List Lexeme}
    (h : t ∈ flatten line ls) : ∃ l ∈ ls, ∃ lineOf, l.token? lineOf = some t := by
  fun_induction flatten line ls with
  | case1 => simp at h
  | case2 line ls ih =>
    obtain ⟨l, hl, found⟩ := ih h
    exact ⟨l, List.mem_cons_of_mem _ hl, found⟩
  | case3 line l ls _ ih =>
    rcases List.mem_append.1 h with here | later
    · exact ⟨l, List.mem_cons_self, line, Option.mem_toList.1 here⟩
    · obtain ⟨l', hl, found⟩ := ih later
      exact ⟨l', List.mem_cons_of_mem _ hl, found⟩

/-- The text of an f-string is at least three characters shorter than its
lexeme. -/
theorem Lexeme.length_text_add_three_le {l : Lexeme} {t : Token} {line : Nat}
    (h : l.token? line = some t) (hkind : t.kind = .fstring) :
    t.text.toList.length + 3 ≤ l.spelling.length := by
  cases l with
  | quoted marker quote body =>
    cases marker with
    | nil =>
      obtain rfl := Option.some.inj h
      simp at hkind
    | cons c cs =>
      obtain rfl := Option.some.inj h
      simp only [spelling, String.toList_ofList, List.length_append, List.length_cons,
        List.length_nil]
      omega
  | word letters =>
    obtain rfl := Option.some.inj h
    simp only at hkind
    split at hkind <;> simp at hkind
  | comment _ | blanks _ | newline => simp [token?] at h
  | number _ | operator _ | delimiter _ | dot | stray _ =>
    obtain rfl := Option.some.inj h
    simp at hkind

/-- An f-string in an expression is at least three characters shorter than the
expression. -/
theorem Token.length_fstring_add_three_le {t : Token} {source : List Char} {line : Nat}
    (h : t ∈ ofExpression source line) (hkind : t.kind = .fstring) :
    t.text.toList.length + 3 ≤ source.length := by
  obtain ⟨l, hl, lineOf, found⟩ := exists_lexeme_of_mem_flatten h
  have htext := Lexeme.length_text_add_three_le found hkind
  have hspelling := Lexeme.length_spelling_le hl
  omega

namespace FString

/-! ### Placeholders in f-strings -/

/-- The sources in the placeholders of a text that has been cut. -/
def Body.sources : Body → List (List Char)
  | text _ | broken _ => []
  | hole _ source rest => source :: rest.sources

@[simp] theorem Body.sources_push (c : Char) (b : Body) : (b.push c).sources = b.sources := by
  cases b <;> rfl

/-- A placeholder is at least two characters shorter than the text around
it. -/
theorem length_source_add_two_le {content source : List Char}
    (h : source ∈ (cut content).sources) : source.length + 2 ≤ content.length := by
  fun_induction cut content with
  | case1 => simp [Body.sources] at h
  | case2 cs ih =>
    rw [Body.sources_push] at h
    have := ih h
    simp only [List.length_cons]
    omega
  | case3 cs _ inner rest hplace ih =>
    have happ := congrArg List.length (placeholder?_append hplace)
    simp only [List.length_append, List.length_cons] at happ ⊢
    simp only [Body.sources, List.mem_cons] at h
    rcases h with rfl | h
    · omega
    · have := ih h
      omega
  | case4 => simp [Body.sources] at h
  | case5 cs ih =>
    rw [Body.sources_push] at h
    have := ih h
    simp only [List.length_cons]
    omega
  | case6 => simp [Body.sources] at h
  | case7 =>
    rename_i ih
    rw [Body.sources_push] at h
    have := ih h
    simp only [List.length_cons]
    omega

/-! ### Reading -/

/-- Reading a text that has been cut depends on its placeholders only. -/
theorem Body.read_congr {line : Nat} {e e' : List Char → Except Failure Expr} {b : Body}
    (h : ∀ source ∈ b.sources, e source = e' source) : b.read line e = b.read line e' := by
  induction b with
  | text _ | broken _ => rfl
  | hole chars source rest ih =>
    rw [Body.read, Body.read, h source List.mem_cons_self,
      ih fun s hs => h s (List.mem_cons_of_mem _ hs)]

/-- The expression in a placeholder depends on its f-strings only. -/
theorem embedded_congr {f g : Grammar.Reader} {line : Nat} {source : List Char}
    (h : Grammar.Agree f g (Token.ofExpression source line)) :
    embedded f line source = embedded g line source := by
  rw [embedded, embedded, whole, whole, Grammar.expression_congr h]

/-- The f-strings inside an f-string are read like the f-string itself. -/
theorem read_eq (content : List Char) (line : Nat) :
    read content line =
      (cut content).read line (embedded (fun inner innerLine => read inner.toList innerLine) line) := by
  rw [read]
  refine Body.read_congr fun source hsource => embedded_congr fun t ht hkind => ?_
  have hinner := Token.length_fstring_add_three_le ht hkind
  have houter := length_source_add_two_le hsource
  exact if_pos (by omega)

end FString

end Offside
