import Offside.Lowering.Expr
import Offside.Proofs.Decimals
import Offside.Proofs.Lexical

/-!
# Offside.Proofs.Inline

The code of an expression **stays on one line**, and can start a line: it has
text, and its first character is neither a space nor the brace that closes a block
(`Expr.startsLine_toCode`). This holds of every expression that is read from a source,
whatever characters are in its strings.
-/

namespace Offside

/-! ### Texts on one line -/

/-- There is no line end in a text. -/
def IsInline (text : String) : Prop := '\n' ∉ text.toList

instance (text : String) : Decidable (IsInline text) :=
  inferInstanceAs (Decidable ('\n' ∉ text.toList))

/-- A text is on one line, and can start it. -/
structure StartsLine (text : String) : Prop where
  inline : IsInline text
  starts : ∃ c ∈ text.toList.head?, c ≠ ' ' ∧ c ≠ '\x7d'

/-- What a line starts with: text without a line end, whose first character is
neither a blank nor a closing brace. -/
theorem startsLine_iff {text : String} :
    StartsLine text ↔
      IsInline text ∧ text.toList.head?.any (fun c => c ≠ ' ' && c ≠ '\x7d') = true := by
  simp only [Option.any_eq_true, Bool.and_eq_true, decide_eq_true_eq]
  exact ⟨fun h => ⟨h.inline, h.starts⟩, fun h => ⟨h.1, h.2⟩⟩

instance (text : String) : Decidable (StartsLine text) := decidable_of_iff _ startsLine_iff.symm

@[simp] theorem isInline_append {a b : String} :
    IsInline (a ++ b) ↔ IsInline a ∧ IsInline b := by
  simp [IsInline]

theorem forall_mem_intercalate {p : Char → Prop} {sep : String} (hsep : ∀ c ∈ sep.toList, p c)
    {texts : List String} (h : ∀ text ∈ texts, ∀ c ∈ text.toList, p c) :
    ∀ c ∈ (sep.intercalate texts).toList, p c := by
  induction texts with
  | nil => simp
  | cons text texts ih =>
      obtain ⟨htext, htexts⟩ := List.forall_mem_cons.1 h
      cases texts with
      | nil => simpa using htext
      | cons text' texts =>
          rw [String.intercalate_cons_cons, String.toList_append, String.toList_append]
          exact List.forall_mem_append.2 ⟨List.forall_mem_append.2 ⟨htext, hsep⟩, ih htexts⟩

/-- Texts on one line, joined by one, are on one line. -/
theorem isInline_intercalate {sep : String} (hsep : IsInline sep) {texts : List String}
    (h : ∀ text ∈ texts, IsInline text) : IsInline (sep.intercalate texts) := by
  have hne {text : String} (htext : IsInline text) (c : Char) (hc : c ∈ text.toList) :
      c ≠ '\n' := by
    rintro rfl
    exact htext hc
  exact fun hmem => forall_mem_intercalate (hne hsep) (fun text ht => hne (h text ht)) _ hmem rfl

theorem Lexeme.isWordPart_of_isWord {letters : List Char} (h : isWord letters = true) :
    ∀ c ∈ letters, isWordPart c = true := by
  cases letters with
  | nil => cases h
  | cons c cs =>
      obtain ⟨hc, hcs⟩ := Bool.and_eq_true_iff.1 h
      exact List.forall_mem_cons.2 ⟨isWordPart_of_isWordStart hc, List.all_eq_true.1 hcs⟩

namespace StartsLine

variable {a b : String}

/-- More text may follow on the line. -/
theorem append (h : StartsLine a) (hb : IsInline b) : StartsLine (a ++ b) := by
  obtain ⟨c, hhead, hc⟩ := h.starts
  refine ⟨isInline_append.2 ⟨h.inline, hb⟩, c, ?_, hc⟩
  rw [String.toList_append, List.head?_append, hhead]
  rfl

theorem between {text : String} (h : IsInline text) (ha : StartsLine a) (hb : IsInline b) :
    StartsLine (a ++ text ++ b) :=
  (ha.append h).append hb

/-- A text of characters of one class starts a line, if the class has no line end, space or
brace. -/
theorem of_class {p : Char → Bool} (h : ∀ c ∈ a.toList, p c = true) (hne : a.toList ≠ [])
    (hp : ['\n', ' ', '\x7d'].any p = false) : StartsLine a := by
  obtain ⟨c, cs, htext⟩ := List.exists_cons_of_ne_nil hne
  have hnot (d : Char) (hd : d ∈ a.toList) : d ∉ ['\n', ' ', '\x7d'] :=
    Lexeme.not_mem_of_class (h d hd) hp
  have hc := hnot c (by simp [htext])
  refine ⟨fun hmem => hnot _ hmem (by decide), c, by simp [htext], ?_, ?_⟩
  · rintro rfl
    exact hc (by decide)
  · rintro rfl
    exact hc (by decide)

/-- Words start lines. -/
theorem of_isWord (h : Lexeme.isWord a.toList = true) : StartsLine a := by
  refine of_class (Lexeme.isWordPart_of_isWord h) ?_ (by decide)
  intro hnil
  rw [hnil] at h
  cases h

end StartsLine

theorem isInline_toString (n : Nat) : IsInline (toString n) := by
  have hdigit : ∀ c ∈ (toString n).toList, c.isDigit = true := by
    rw [Nat.toString_eq_repr, Nat.toList_repr]
    exact fun c hc => Numeral.isDigit_toDigits c hc
  intro hmem
  exact absurd (hdigit _ hmem) (by decide)

/-! ### Literals

Strings may have any characters in them. What is written of them has no line end, by
the escapes.
-/

/-- The text of a number starts a line, also of one that no literal stands for. -/
theorem startsLine_number (value : Binary64) : StartsLine value.toCode := by
  cases value with
  | finite negative mantissa exponent =>
      -- The text is positional for every number, so that there is no exponent in it.
      obtain ⟨whole, part, hliteral, -⟩ := Binary64.exists_isLiteral_toCode mantissa exponent
      obtain ⟨c, cs, htext, -⟩ := hliteral.exists_cons
      have hliteral' : ∀ d ∈ (Binary64.toCode (.finite false mantissa exponent)).toList,
          (d.isDigit || d = '.' || d = '-') = true := fun d hd => by
        rw [hliteral.isDigit_or_point d hd, Bool.true_or]
      refine .of_class (p := fun d => d.isDigit || d = '.' || d = '-') ?_ ?_ (by decide)
      · cases negative with
        | false => exact hliteral'
        | true =>
            rw [Binary64.toCode_negative, String.toList_append]
            exact List.forall_mem_append.2 ⟨by simp, hliteral'⟩
      · cases negative <;> simp [Binary64.toCode_negative, htext]
  | infinite negative => cases negative <;> decide
  | nan => decide

/-- A line end in a string is escaped. -/
theorem Text.newline_notMem_escapeChar (c : Char) : '\n' ∉ escapeChar c := by
  unfold escapeChar
  split_ifs with _ _ _ _ hnewline _ _ hcontrol
  any_goals decide
  · have hdigit : ∀ n < 16, '\n' ≠ Nat.digitChar n := by decide
    have hhigh := hdigit (c.toNat / 16) (by omega)
    have hlow := hdigit (c.toNat % 16) (by omega)
    simp [hhigh, hlow]
  · simpa using Ne.symm hnewline

theorem startsLine_quote (s : String) : StartsLine (Text.quote s) := by
  refine ⟨?_, '"', by simp [Text.quote], by decide⟩
  simp [IsInline, Text.quote, Text.newline_notMem_escapeChar]

/-- A line end in a template is escaped too. -/
theorem Target.newline_notMem_escapeTemplateChars (cs : List Char) :
    '\n' ∉ escapeTemplateChars cs := by
  have hrest (rest : List Char) (_ : rest.length < cs.length) : '\n' ∉ escapeTemplateChars rest :=
    newline_notMem_escapeTemplateChars rest
  unfold escapeTemplateChars
  split
  · exact List.not_mem_nil
  · rename_i rest
    simp [hrest rest (by simp)]
  · rename_i rest
    simp [hrest rest (by simp)]
  · rename_i rest
    simp [hrest rest (by rw [List.length_cons, List.length_cons]; omega)]
  · rename_i rest
    simp [hrest rest (by simp)]
  · rename_i rest
    simp [hrest rest (by simp)]
  · rename_i c rest _ _ _ hnewline _
    have hc : '\n' ≠ c := fun heq => hnewline heq.symm
    simp [hc, hrest rest (by simp)]
termination_by cs.length

theorem isInline_escapeTemplate (s : String) : IsInline (Target.escapeTemplate s) := by
  rw [IsInline, Target.escapeTemplate, String.toList_ofList]
  exact Target.newline_notMem_escapeTemplateChars s.toList

/-- A template is on one line if its placeholders are. -/
theorem isInline_templateBody {codes : List String} (h : ∀ code ∈ codes, IsInline code)
    (quasis : List String) : IsInline (Target.templateBody quasis codes) := by
  induction quasis generalizing codes with
  | nil => exact List.not_mem_nil
  | cons quasi quasis ih =>
      cases codes with
      | nil => exact isInline_append.2 ⟨isInline_escapeTemplate quasi, ih h⟩
      | cons code codes =>
          obtain ⟨hcode, hcodes⟩ := List.forall_mem_cons.1 h
          have hopen : IsInline "$\x7b" := by decide
          have hclose : IsInline "\x7d" := by decide
          simp [Target.templateBody, isInline_escapeTemplate, hopen, hcode, hclose, ih hcodes]

/-! ### Expressions

By the recursion of the writer, for expressions whose leaves come from tokens.
-/

theorem Target.Expr.startsLine_paren {t : Target.Expr} (h : StartsLine t.render) :
    StartsLine t.paren.render := by
  rw [render]
  exact .between h.inline (by decide) (by decide)

theorem Target.Expr.startsLine_paren_if {t : Target.Expr} (h : StartsLine t.render) (p : Prop)
    [Decidable p] : StartsLine (if p then t.paren else t).render := by
  split
  · exact startsLine_paren h
  · exact h

/-- A sign or a negation starts a line as its operand does. -/
theorem Target.Expr.startsLine_unary {t : Target.Expr} (h : StartsLine t.render)
    (op : Target.UnaryOp) : StartsLine (unary op t).render := by
  have hop : StartsLine op.symbol := by cases op <;> decide
  exact hop.append h.inline

theorem isInline_symbol (op : Target.BinaryOp) : IsInline op.symbol := by
  cases op <;> decide

/-- The counterparts of built-in functions can start a line like names. -/
theorem startsLine_lowerCallee {t : Target.Expr} (h : StartsLine t.render) :
    StartsLine (lowerCallee t).render := by
  have hall : ∀ p ∈ intrinsics, StartsLine p.2 := by decide
  cases t with
  | name text =>
      rw [lowerCallee, Target.Expr.render]
      cases hlookup : intrinsics.lookup text with
      | none => exact h
      | some other => exact hall (text, other) (mem_of_lookup_eq_some hlookup)
  | _ => exact h

namespace Expr

variable {e : Expr}

theorem startsLine_literal (value : Literal) : StartsLine value.lower.render := by
  cases value with
  | number value => exact startsLine_number value
  | string value => exact startsLine_quote value
  | boolean value => cases value <;> decide
  | null => decide

mutual

/-- The code of an expression is on one line, and can start it. -/
theorem startsLine_toCode : (e : Expr) → e.IsLexical → StartsLine e.toCode
  | .ident _, h => .of_isWord h
  | .literal value, _ => startsLine_literal value
  | .fstring quasis es, h => by
      have hbody := isInline_templateBody (areInline_toCode es h.2) quasis
      rw [toCode, lower, Target.Expr.render, renderAll_lowerAll]
      exact .between hbody (by decide) (by decide)
  | .binary left op right line, h => by
      have hbase := Target.Expr.startsLine_paren_if (startsLine_toCode left h.1)
        (op = .pow ∧ left.needsParensAsBase = true)
      have hright := (startsLine_toCode right h.2).inline
      have hspace : IsInline " " := by decide
      have hrest : IsInline (" " ++ op.lower.symbol ++ " " ++ right.toCode) := by
        simp [hspace, isInline_symbol, hright]
      simpa [toCode, lower, Target.Expr.render, String.append_assoc] using hbase.append hrest
  | .unary op operand, h => by
      have hoperand := startsLine_toCode operand h
      have hsigned := Target.Expr.startsLine_paren_if hoperand
        (operand.lower.startsWithSign = true)
      cases op with
      | not => exact Target.Expr.startsLine_unary hoperand .not
      | neg => exact Target.Expr.startsLine_unary hsigned .neg
      | pos => exact Target.Expr.startsLine_unary hsigned .pos
  | .attr value name, h => by
      have hpoint : IsInline "." := by decide
      rw [toCode, lower, Target.Expr.render, String.append_assoc]
      exact (startsLine_toCode value h.2).append
        (isInline_append.2 ⟨hpoint, (StartsLine.of_isWord h.1).inline⟩)
  | .call callee args, h => by
      have hcallee := startsLine_lowerCallee (startsLine_toCode callee h.1)
      have hargs := isInline_intercalate (by decide : IsInline ", ") (areInline_toCode args h.2)
      have hrest : StartsLine ("(" ++ ", ".intercalate (args.map toCode) ++ ")") :=
        .between hargs (by decide) (by decide)
      simpa [toCode, lower, Target.Expr.render, renderAll_lowerAll, String.append_assoc] using
        hcallee.append hrest.inline
  | .index target position, h => by
      have hposition := (startsLine_toCode position h.2).inline
      have hrest : StartsLine ("[" ++ position.toCode ++ "]") :=
        .between hposition (by decide) (by decide)
      simpa [toCode, lower, Target.Expr.render, String.append_assoc] using
        (startsLine_toCode target h.1).append hrest.inline
  | .list items, h => by
      have hitems := isInline_intercalate (by decide : IsInline ", ") (areInline_toCode items h)
      rw [toCode, lower, Target.Expr.render, renderAll_lowerAll]
      exact .between hitems (by decide) (by decide)
  | .group inner, h => Target.Expr.startsLine_paren (startsLine_toCode inner h)

theorem areInline_toCode : (es : List Expr) → AreLexical es → ∀ code ∈ es.map toCode, IsInline code
  | [], _ => by simp
  | e :: es, h =>
      List.forall_mem_cons.2 ⟨(startsLine_toCode e h.1).inline, areInline_toCode es h.2⟩

end

end Expr

end Offside
