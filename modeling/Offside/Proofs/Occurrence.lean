import Offside.Proofs.Coverage
import Offside.Proofs.Nodes
import Offside.Proofs.Placeholders
import Offside.Proofs.Yield

/-!
# Offside.Proofs.Occurrence

What occurs in a program **at any depth of f-strings**. An f-string is one token
and one mark, so the tokens and the marks of a program show the expressions in its
placeholders only inside these. `Token.OccursIn` and `Mark.OccursIn` look into
them, and go together: what occurs in a program is spelled by a token that occurs
in its source (`Mark.OccursIn.exists_token`).

No f-string goes over a line end, so that all tokens in the placeholders of an
f-string stand on its line (`Token.OccursIn.exists_line`).
-/

namespace Offside

/-! ### Marks -/

namespace Mark

/-- A mark stands in a row of marks, or in a placeholder of an f-string in it. -/
inductive OccursIn (m : Mark) : List Mark → Prop where
  | here {marks : List Mark} : m ∈ marks → OccursIn m marks
  | placeholder {marks : List Mark} {quasis : List String} {es : List Expr} {e : Expr} :
      .fstring quasis es ∈ marks → e ∈ es → OccursIn m e.yield → OccursIn m marks

/-- A mark occurs in a placeholder of an f-string in a row of marks. -/
def InPlaceholder (m : Mark) (marks : List Mark) : Prop :=
  ∃ quasis es, .fstring quasis es ∈ marks ∧ ∃ e ∈ es, m.OccursIn e.yield

theorem occursIn_iff {m : Mark} {marks : List Mark} :
    m.OccursIn marks ↔ m ∈ marks ∨ m.InPlaceholder marks := by
  constructor
  · intro h
    cases h with
    | here hm => exact .inl hm
    | placeholder hfstring he hm => exact .inr ⟨_, _, hfstring, _, he, hm⟩
  · rintro (hm | ⟨_, _, hfstring, _, he, hm⟩)
    · exact .here hm
    · exact .placeholder hfstring he hm

theorem OccursIn.mono {m : Mark} {marks marks' : List Mark} (h : m.OccursIn marks)
    (hsub : marks ⊆ marks') : m.OccursIn marks' := by
  cases h with
  | here hm => exact .here (hsub hm)
  | placeholder hfstring he hm => exact .placeholder (hsub hfstring) he hm

theorem OccursIn.before {m : Mark} {marks : List Mark} (h : m.OccursIn marks)
    (after : List Mark) : m.OccursIn (marks ++ after) :=
  h.mono (List.subset_append_left marks after)

theorem OccursIn.after {m : Mark} {marks : List Mark} (h : m.OccursIn marks)
    (before : List Mark) : m.OccursIn (before ++ marks) :=
  h.mono (List.subset_append_right before marks)

theorem OccursIn.cons {m : Mark} {marks : List Mark} (h : m.OccursIn marks) (first : Mark) :
    m.OccursIn (first :: marks) :=
  h.after [first]

end Mark

/-! ### Operations of a program and their marks -/

namespace Expr

theorem yield_subset_yieldMore {e : Expr} {es : List Expr} (h : e ∈ es) :
    e.yield ⊆ yieldMore es := by
  induction es with
  | nil => cases h
  | cons first es ih =>
      rw [yieldMore]
      rcases List.mem_cons.1 h with rfl | hrest
      · exact fun m hm => List.mem_cons_of_mem _ (List.mem_append_left _ hm)
      · exact fun m hm => List.mem_cons_of_mem _ (List.mem_append_right _ (ih hrest hm))

theorem yield_subset_yieldAll {e : Expr} {es : List Expr} (h : e ∈ es) :
    e.yield ⊆ yieldAll es := by
  cases es with
  | nil => cases h
  | cons first es =>
      rw [yieldAll]
      rcases List.mem_cons.1 h with rfl | hrest
      · exact fun m hm => List.mem_append_left _ hm
      · exact fun m hm => List.mem_append_right _ (yield_subset_yieldMore hrest hm)

section

variable {left right : Expr} {op : BinaryOp} {line : Nat}

mutual

/-- The operator of an operation occurs in the yield. -/
theorem occursIn_yield (e : Expr) (h : .binary left op right line ∈ e.nodes) :
    (Mark.binary op line).OccursIn e.yield := by
  match e with
  | .ident _ | .literal _ => simp [nodes] at h
  | .fstring quasis expressions =>
      simp only [nodes, List.mem_cons, reduceCtorEq, false_or] at h
      obtain ⟨e, he, hoccurs⟩ := exists_occursIn_yield expressions h
      exact .placeholder List.mem_cons_self he hoccurs
  | .binary first op' second line' =>
      rw [nodes, List.mem_cons, List.mem_append] at h
      rw [yield]
      rcases h with heq | hfirst | hsecond
      · obtain ⟨-, rfl, -, rfl⟩ := Expr.binary.inj heq
        exact .here (List.mem_append_right _ List.mem_cons_self)
      · exact (occursIn_yield first hfirst).before _
      · exact ((occursIn_yield second hsecond).cons _).after _
  | .unary _ operand =>
      simp only [nodes, List.mem_cons, reduceCtorEq, false_or] at h
      rw [yield]
      exact (occursIn_yield operand h).cons _
  | .attr value _ =>
      simp only [nodes, List.mem_cons, reduceCtorEq, false_or] at h
      rw [yield]
      exact (occursIn_yield value h).before _
  | .call callee args =>
      simp only [nodes, List.mem_cons, reduceCtorEq, false_or, List.mem_append] at h
      rw [yield]
      rcases h with hcallee | hargs
      · exact (occursIn_yield callee hcallee).before _
      · obtain ⟨arg, harg, hoccurs⟩ := exists_occursIn_yield args hargs
        have hall := hoccurs.mono (yield_subset_yieldAll harg)
        exact ((hall.before _).cons _).after _
  | .index target position =>
      simp only [nodes, List.mem_cons, reduceCtorEq, false_or, List.mem_append] at h
      rw [yield]
      rcases h with htarget | hposition
      · exact (occursIn_yield target htarget).before _
      · exact (((occursIn_yield position hposition).before _).cons _).after _
  | .list items =>
      simp only [nodes, List.mem_cons, reduceCtorEq, false_or] at h
      rw [yield]
      obtain ⟨item, hitem, hoccurs⟩ := exists_occursIn_yield items h
      have hall := hoccurs.mono (yield_subset_yieldAll hitem)
      exact (hall.before _).cons _
  | .group inner =>
      simp only [nodes, List.mem_cons, reduceCtorEq, false_or] at h
      rw [yield]
      exact ((occursIn_yield inner h).before _).cons _

theorem exists_occursIn_yield (es : List Expr) (h : .binary left op right line ∈ nodesAll es) :
    ∃ e ∈ es, (Mark.binary op line).OccursIn e.yield := by
  match es with
  | [] => simp [nodesAll] at h
  | e :: es =>
      rw [nodesAll, List.mem_append] at h
      rcases h with hfirst | hrest
      · exact ⟨e, List.mem_cons_self, occursIn_yield e hfirst⟩
      · obtain ⟨later, hlater, hoccurs⟩ := exists_occursIn_yield es hrest
        exact ⟨later, List.mem_cons_of_mem e hlater, hoccurs⟩

end

end

end Expr

namespace Stmt

variable {left right : Expr} {op : BinaryOp} {line : Nat}

theorem isEmpty_of_mem_blockNodes {e : Expr} {ss : List Stmt} (h : e ∈ blockNodes ss) :
    ss.isEmpty = false := by
  cases ss with
  | nil => simp [blockNodes] at h
  | cons s ss => rfl

mutual

theorem occursIn_yield (s : Stmt) (h : .binary left op right line ∈ s.nodes) :
    (Mark.binary op line).OccursIn s.yield := by
  match s with
  | .assign target value | .augAssign target _ value =>
      rw [nodes, List.mem_append] at h
      rw [yield]
      rcases h with htarget | hvalue
      · exact (Expr.occursIn_yield target htarget).before _
      · exact ((Expr.occursIn_yield value hvalue).cons _).after _
  | .expr value =>
      rw [nodes] at h
      rw [yield]
      exact Expr.occursIn_yield value h
  | .returnValue (some value) =>
      rw [nodes] at h
      rw [yield]
      exact (Expr.occursIn_yield value h).cons _
  | .functionDef name params body =>
      rw [nodes] at h
      rw [yield]
      have hbody := ((occursIn_yieldBlock body h).cons (.delimiter ":")).cons (.delimiter ")")
      exact (((hbody.after _).cons _).cons _).cons _
  | .classDef _ body =>
      rw [nodes] at h
      rw [yield]
      exact (((occursIn_yieldBlock body h).cons _).cons _).cons _
  | .ifElse condition body alternate =>
      rw [nodes, List.mem_append, List.mem_append] at h
      rw [yield]
      rcases h with hcondition | hbody | halternate
      · exact ((Expr.occursIn_yield condition hcondition).before _).cons _
      · exact ((((occursIn_yieldBlock body hbody).before _).cons _).after _).cons _
      · exact ((((occursIn_yieldAlternate alternate halternate).after _).cons _).after _).cons _
  | .whileLoop condition body orelse =>
      rw [nodes, List.mem_append, List.mem_append] at h
      rw [yield]
      rcases h with hcondition | hbody | horelse
      · exact ((Expr.occursIn_yield condition hcondition).before _).cons _
      · exact ((((occursIn_yieldBlock body hbody).before _).cons _).after _).cons _
      · rw [isEmpty_of_mem_blockNodes horelse]
        have helse := ((occursIn_yieldBlock orelse horelse).cons (.delimiter ":")).cons
          (.keyword "else")
        exact (((helse.after _).cons _).after _).cons _
  | .forLoop target iter body orelse =>
      rw [nodes, List.mem_append, List.mem_append, List.mem_append] at h
      rw [yield]
      rcases h with htarget | hiter | hbody | horelse
      · exact ((Expr.occursIn_yield target htarget).before _).cons _
      · exact ((((Expr.occursIn_yield iter hiter).before _).cons _).after _).cons _
      · exact ((((((occursIn_yieldBlock body hbody).before _).cons _).after _).cons _).after _).cons _
      · rw [isEmpty_of_mem_blockNodes horelse]
        have helse := ((occursIn_yieldBlock orelse horelse).cons (.delimiter ":")).cons
          (.keyword "else")
        have hrest := ((helse.after (yieldBlock body)).cons (.delimiter ":")).after iter.yield
        exact ((hrest.cons _).after _).cons _
  | .returnValue none | .importModule _ | .breakLoop | .continueLoop | .pass =>
      simp [nodes] at h

theorem occursIn_yieldAlternate (a : Alternate)
    (h : .binary left op right line ∈ alternateNodes a) :
    (Mark.binary op line).OccursIn (yieldAlternate a) := by
  match a with
  | .none => simp [alternateNodes] at h
  | .elseIf condition body alternate =>
      rw [alternateNodes, List.mem_append, List.mem_append] at h
      rw [yieldAlternate]
      rcases h with hcondition | hbody | halternate
      · exact ((Expr.occursIn_yield condition hcondition).before _).cons _
      · exact ((((occursIn_yieldBlock body hbody).before _).cons _).after _).cons _
      · exact ((((occursIn_yieldAlternate alternate halternate).after _).cons _).after _).cons _
  | .otherwise body =>
      rw [alternateNodes] at h
      rw [yieldAlternate]
      exact ((occursIn_yieldBlock body h).cons _).cons _

theorem occursIn_yieldBlock (ss : List Stmt) (h : .binary left op right line ∈ blockNodes ss) :
    (Mark.binary op line).OccursIn (yieldBlock ss) := by
  match ss with
  | [] => simp [blockNodes] at h
  | s :: ss =>
      rw [blockNodes, List.mem_append] at h
      rw [yieldBlock]
      rcases h with hfirst | hrest
      · exact (occursIn_yield s hfirst).before _
      · exact (occursIn_yieldBlock ss hrest).after _

end

end Stmt

/-! ### Tokens -/

theorem Lexeme.mem_spelling_of_mem_text {l : Lexeme} {line : Nat} {t : Token}
    (h : l.token? line = some t) {c : Char} (hc : c ∈ t.text.toList) : c ∈ l.spelling := by
  cases l with
  | comment _ | blanks _ | newline => simp [token?] at h
  | quoted marker quote body =>
      cases marker <;>
        (obtain rfl := Option.some.inj h
         simp only [String.toList_ofList] at hc
         simp [spelling, hc])
  | _ =>
      obtain rfl := Option.some.inj h
      simpa [spelling] using hc

namespace Token

/-- A token stands in a row of tokens, or in a placeholder of an f-string in it. -/
inductive OccursIn (t : Token) : List Token → Prop where
  | here {ts : List Token} : t ∈ ts → OccursIn t ts
  | placeholder {ts : List Token} {u : Token} {source : List Char} :
      u ∈ ts → u.kind = .fstring → source ∈ (FString.cut u.text.toList).sources →
      OccursIn t (ofExpression source u.line) → OccursIn t ts

/-- A token of a program that is no part of the layout stands for a lexeme. -/
theorem exists_lexeme_of_mem_ofProgram {source : List Char} {t : Token} (h : t ∈ ofProgram source)
    (hkind : t.kind.isLayout = false) : ∃ l ∈ Lexeme.scan source, ∃ n, l.token? n = some t := by
  rcases mem_layout h with hlayout | hlayout | hlayout | hlexeme
  · simp [hlayout] at hkind
  · simp [hlayout] at hkind
  · simp [hlayout] at hkind
  · exact hlexeme

/-- A token in a placeholder stands for a lexeme. -/
theorem OccursIn.exists_lexeme {t : Token} {ts : List Token} (h : t.OccursIn ts) :
    t ∈ ts ∨ ∃ source, ∃ l ∈ Lexeme.scan source, ∃ n, l.token? n = some t := by
  induction h with
  | here ht => exact .inl ht
  | placeholder _ _ _ _ ih =>
      rcases ih with ht | hlexeme
      · exact .inr ⟨_, exists_lexeme_of_mem_flatten ht⟩
      · exact .inr hlexeme

theorem mem_of_mem_essential {ts : List Token} {t : Token} (h : t ∈ essential ts) : t ∈ ts := by
  induction ts with
  | nil => cases h
  | cons u ts ih =>
      rw [essential] at h
      split at h
      · exact List.mem_cons_of_mem u (ih h)
      · rcases List.mem_cons.1 h with rfl | hrest
        · exact List.mem_cons_self
        · exact List.mem_cons_of_mem u (ih hrest)

theorem exists_mem_of_spells {ts : List Token} {marks : List Mark}
    (h : List.Forall₂ Spells ts marks) {m : Mark} (hm : m ∈ marks) : ∃ t ∈ ts, t.Spells m := by
  induction h with
  | nil => cases hm
  | @cons t _ _ _ hspells _ ih =>
      rcases List.mem_cons.1 hm with rfl | hrest
      · exact ⟨t, List.mem_cons_self, hspells⟩
      · obtain ⟨u, hu, hspell⟩ := ih hrest
        exact ⟨u, List.mem_cons_of_mem t hu, hspell⟩

end Token

theorem Grammar.Spelled.exists_token {marks : List Mark} {ts : List Token} (h : Spelled marks ts)
    {m : Mark} (hm : m ∈ marks) : ∃ t ∈ ts, t.Spells m := by
  obtain ⟨kept, hkept, hspells⟩ := h
  have hessential : Token.essential ts = kept := by simpa [Token.essential] using hkept []
  rw [← hessential] at hspells
  obtain ⟨t, ht, hspell⟩ := Token.exists_mem_of_spells hspells hm
  exact ⟨t, Token.mem_of_mem_essential ht, hspell⟩

/-- An expression in a placeholder is formed by the tokens of the placeholder. -/
theorem FString.exists_source_of_read {content : List Char} {line : Nat} {quasis : List String}
    {es : List Expr} (h : read content line = .ok (quasis, es)) {e : Expr} (he : e ∈ es) :
    ∃ source ∈ (cut content).sources,
      Grammar.Forms Program.fstringReader (.expression 0 e) (Token.ofExpression source line) := by
  rw [read_eq] at h
  obtain ⟨source, hsource, hread⟩ := (Body.read_eq_ok h).2 e he
  exact ⟨source, hsource, whole_eq_ok_iff.1 hread⟩

/-- Where tokens spell marks, those that occur in the tokens spell all that occur in
the marks. -/
theorem Mark.OccursIn.exists_token {m : Mark} {marks : List Mark} (h : m.OccursIn marks)
    {ts : List Token} (hts : ∀ m' ∈ marks, ∃ t ∈ ts, t.Spells m') :
    ∃ t : Token, t.OccursIn ts ∧ t.Spells m := by
  induction h generalizing ts with
  | here hm =>
      obtain ⟨t, ht, hspells⟩ := hts m hm
      exact ⟨t, .here ht, hspells⟩
  | placeholder hfstring he _ ih =>
      obtain ⟨u, hu, hkind, hread⟩ := hts _ hfstring
      obtain ⟨source, hsource, hforms⟩ := FString.exists_source_of_read hread he
      have hspelled := hforms.spelled
      obtain ⟨t, ht, hspells⟩ := ih fun m' hm' => hspelled.exists_token hm'
      exact ⟨t, .placeholder hu hkind hsource ht, hspells⟩

/-- What occurs in a program is spelled by a token that occurs in its source. -/
theorem Program.exists_token_of_occursIn {ts : List Token} {p : Program}
    (hts : Grammar.Readable ts) (h : ofTokens ts = .ok p) {m : Mark} (hm : m.OccursIn p.yield) :
    ∃ t : Token, t.OccursIn ts ∧ t.Spells m :=
  hm.exists_token fun _ hm' => ((ofTokens_eq_ok_iff.1 h).spelled hts).exists_token hm'

/-! ### Lines -/

/-- A placeholder is a part of the text around it. -/
theorem FString.infix_of_mem_sources {content source : List Char}
    (h : source ∈ (cut content).sources) : source <:+: content := by
  fun_induction cut content with
  | case1 => simp [Body.sources] at h
  | case2 cs ih | case5 cs ih =>
      rw [Body.sources_push] at h
      exact (ih h).trans (List.infix_cons (List.infix_cons List.infix_rfl))
  | case3 cs _ inner rest hplace ih =>
      have happend := placeholder?_append hplace
      simp only [Body.sources, List.mem_cons] at h
      rcases h with rfl | hrest
      · exact ⟨['\x7b'], '\x7d' :: rest, by simp [happend]⟩
      · refine (ih hrest).trans ⟨'\x7b' :: (inner ++ ['\x7d']), [], ?_⟩
        simp [happend]
  | case4 | case6 => simp [Body.sources] at h
  | case7 =>
      rename_i ih
      rw [Body.sources_push] at h
      exact (ih h).trans (List.infix_cons List.infix_rfl)

/-- The text of a token has no line end in it. -/
theorem Lexeme.newline_not_mem_text {source : List Char} {l : Lexeme} (hl : l ∈ scan source)
    {line : Nat} {t : Token} (h : l.token? line = some t) : '\n' ∉ t.text.toList := by
  have hne : l ≠ .newline := by
    rintro rfl
    cases h
  exact fun hmem => newline_not_mem_spelling hl hne (mem_spelling_of_mem_text h hmem)

namespace Token

theorem newline_not_mem_ofProgram {source : List Char} {t : Token} (h : t ∈ ofProgram source)
    (hkind : t.kind = .fstring) : '\n' ∉ t.text.toList := by
  obtain ⟨l, hl, n, htoken⟩ := exists_lexeme_of_mem_ofProgram h (by simp [hkind])
  exact Lexeme.newline_not_mem_text hl htoken

theorem newline_not_mem_ofExpression {source : List Char} {line : Nat} {t : Token}
    (h : t ∈ ofExpression source line) : '\n' ∉ t.text.toList := by
  obtain ⟨l, hl, n, htoken⟩ := exists_lexeme_of_mem_flatten h
  exact Lexeme.newline_not_mem_text hl htoken

/-- The tokens of an expression without a line end stand on one line. -/
theorem line_of_mem_ofExpression {source : List Char} {line : Nat} {t : Token}
    (hsource : '\n' ∉ source) (h : t ∈ ofExpression source line) : t.line = line := by
  have hscan := Lexeme.newline_not_mem_scan hsource
  rw [ofExpression] at h
  generalize Lexeme.scan source = ls at h hscan
  induction ls with
  | nil => cases h
  | cons l ls ih =>
      obtain ⟨hl, hls⟩ := not_or.1 (fun hmem => hscan (List.mem_cons.2 hmem))
      rw [flatten_cons (Ne.symm hl), List.mem_append, Option.mem_toList] at h
      rcases h with hfirst | hrest
      · exact (Lexeme.token?_line hfirst).1
      · exact ih hrest hls

/-- The tokens in an f-string stand on its line. -/
theorem OccursIn.exists_line {t : Token} {ts : List Token} (h : t.OccursIn ts)
    (hts : ∀ u ∈ ts, u.kind = .fstring → '\n' ∉ u.text.toList) : ∃ u ∈ ts, u.line = t.line := by
  induction h with
  | here ht => exact ⟨t, ht, rfl⟩
  | @placeholder ts u source hu hkind hsource _ ih =>
      obtain ⟨v, hv, hline⟩ := ih fun v hv _ => newline_not_mem_ofExpression hv
      have hnewline : '\n' ∉ source := fun hmem =>
        hts u hu hkind ((FString.infix_of_mem_sources hsource).subset hmem)
      exact ⟨u, hu, (line_of_mem_ofExpression hnewline hv).symm.trans hline⟩

end Token

end Offside
