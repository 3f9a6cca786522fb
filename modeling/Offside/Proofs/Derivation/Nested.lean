import Offside.Proofs.Derivation.Likeness
import Offside.Proofs.Neighbours

/-!
# Offside.Proofs.Derivation.Nested

Programs as **nested blocks**. In `Takes` a block may end because there are no
more tokens, and a program may pass over a `dedent` that closes nothing. Neither
happens in the tokens of a source: `Nested r piece ts` is the grammar without
these rules, in which a block goes from its `indent` to a `dedent` of the same
text and is never empty. Main statement: `formsProgram_iff_nested`.

Design points:

* A piece is formed by all of the tokens. What may follow it matters in one place
  only, at the end of a line, and there the rest of the body is at hand; so a
  simple statement is read together with the rest of its body.
* The columns that are open along the tokens (`Nests`) carry the proof that each
  block ends where it should. That it is not empty comes from `opensOnText`.
-/

namespace Offside.Grammar

open Token (Nests opensOnText startsText)

/-- The tokens form a piece of a program in which each block ends with a `dedent`
of its own. -/
inductive Nested (r : Reader) : Piece → List Token → Prop where
  | functionDef {t name opening : Token} {names : List String} {body : List Stmt}
      {ts us : List Token} :
      t.is .keyword "def" = true → name.kind = .identifier →
      opening.is .delimiter "(" = true → Parameters names ts → Nested r (.block body) us →
      Nested r (.statement (.functionDef name.text names body))
        (t :: name :: opening :: (ts ++ us))
  | classDef {t name : Token} {body : List Stmt} {ts : List Token} :
      t.is .keyword "class" = true → name.kind = .identifier → Nested r (.block body) ts →
      Nested r (.statement (.classDef name.text body)) (t :: name :: ts)
  | conditional {t : Token} {condition : Expr} {body : List Stmt} {alternate : Alternate}
      {ts us vs : List Token} :
      t.is .keyword "if" = true → Forms r (.expression 0 condition) ts →
      Nested r (.block body) us → Nested r (.alternate alternate) vs →
      Nested r (.statement (.ifElse condition body alternate)) (t :: (ts ++ (us ++ vs)))
  | whileLoop {t : Token} {condition : Expr} {body orelse : List Stmt} {ts us vs : List Token} :
      t.is .keyword "while" = true → Forms r (.expression 0 condition) ts →
      Nested r (.block body) us → Nested r (.orelse orelse) vs →
      Nested r (.statement (.whileLoop condition body orelse)) (t :: (ts ++ (us ++ vs)))
  | forLoop {t isIn : Token} {target iter : Expr} {body orelse : List Stmt}
      {ts us vs ws : List Token} :
      t.is .keyword "for" = true → Forms r (.primary target) ts →
      isIn.is .keyword "in" = true → Forms r (.expression 0 iter) us →
      Nested r (.block body) vs → Nested r (.orelse orelse) ws →
      Nested r (.statement (.forLoop target iter body orelse))
        (t :: (ts ++ isIn :: (us ++ (vs ++ ws))))
  | elseIf {t : Token} {condition : Expr} {body : List Stmt} {alternate : Alternate}
      {ts us vs : List Token} :
      t.is .keyword "elif" = true → Forms r (.expression 0 condition) ts →
      Nested r (.block body) us → Nested r (.alternate alternate) vs →
      Nested r (.alternate (.elseIf condition body alternate)) (t :: (ts ++ (us ++ vs)))
  | otherwise {t : Token} {body : List Stmt} {ts : List Token} :
      t.is .keyword "else" = true → Nested r (.block body) ts →
      Nested r (.alternate (.otherwise body)) (t :: ts)
  | noAlternate : Nested r (.alternate .none) []
  | loopElse {t : Token} {body : List Stmt} {ts : List Token} :
      t.is .keyword "else" = true → Nested r (.block body) ts → Nested r (.orelse body) (t :: ts)
  | noLoopElse : Nested r (.orelse []) []
  | block {colon newline indent dedent : Token} {ss : List Stmt} {ts : List Token} :
      colon.is .delimiter ":" = true → newline.kind = .newline → indent.kind = .indent →
      dedent.kind = .dedent → dedent.text = indent.text → ss ≠ [] → Nested r (.body ss) ts →
      Nested r (.block ss) (colon :: newline :: indent :: (ts ++ [dedent]))
  | done : Nested r (.body []) []
  | newline {t : Token} {ss : List Stmt} {ts : List Token} :
      t.kind = .newline → Nested r (.body ss) ts → Nested r (.body ss) (t :: ts)
  | line {s : Stmt} {ss : List Stmt} {ts us : List Token} :
      Simple r s ts → EndsLine us → Nested r (.body ss) us → Nested r (.body (s :: ss)) (ts ++ us)
  | semicolon {s : Stmt} {ss : List Stmt} {t : Token} {ts us : List Token} :
      Simple r s ts → s ≠ .returnValue none → t.is .delimiter ";" = true →
      Nested r (.body ss) us → Nested r (.body (s :: ss)) (ts ++ t :: us)
  | compound {s : Stmt} {ss : List Stmt} {ts us : List Token} :
      Nested r (.statement s) ts → Nested r (.body ss) us → Nested r (.body (s :: ss)) (ts ++ us)

section

variable {r : Reader} {columns : List Nat} {ts us rest : List Token}

/-! ### Tokens of a layout -/

/-- Tokens as the layout writes them inside blocks at these columns, up to the
end of the source. -/
structure LaidOut (columns : List Nat) (ts : List Token) : Prop where
  nests : Nests columns ts []
  opens : opensOnText ts = true

namespace LaidOut

/-- A token that opens or closes no block leaves the open blocks as they are. -/
theorem of_inside {t : Token} (h : LaidOut columns (t :: ts)) (hindent : t.kind ≠ .indent)
    (hdedent : t.kind ≠ .dedent) : LaidOut columns ts :=
  ⟨h.nests.of_inside hindent hdedent, by rw [← h.opens, Token.opensOnText_cons_of_ne hindent]⟩

theorem of_newline {t : Token} (h : LaidOut columns (t :: ts)) (ht : t.kind = .newline) :
    LaidOut columns ts :=
  h.of_inside (by simp [ht]) (by simp [ht])

theorem of_append (h : LaidOut columns (ts ++ us)) (hts : ∀ t ∈ ts, t.kind.isLayout = false) :
    LaidOut columns us := by
  induction ts with
  | nil => exact h
  | cons t ts ih =>
      obtain ⟨ht, hts⟩ := List.forall_mem_cons.1 hts
      refine ih (h.of_inside ?_ ?_) hts
      · intro hkind
        rw [hkind] at ht
        cases ht
      · intro hkind
        rw [hkind] at ht
        cases ht

theorem of_cons {t : Token} (h : LaidOut columns (t :: ts)) (ht : t.kind.isLayout = false) :
    LaidOut columns ts :=
  of_append (show LaidOut columns ([t] ++ ts) from h) (by simpa using ht)

theorem of_is {t : Token} {kind : TokenKind} {text : String} (h : LaidOut columns (t :: ts))
    (ht : t.is kind text = true) (hkind : kind.isLayout = false) : LaidOut columns ts :=
  h.of_cons (isLayout_of_is ht hkind)

/-- An `indent` opens a block at its column, and text follows it. -/
theorem of_indent {t : Token} (h : LaidOut columns (t :: ts)) (ht : t.kind = .indent) :
    ∃ line column, t = Token.indent line column ∧ LaidOut (column :: columns) ts ∧
      startsText ts = true := by
  obtain ⟨line, column, heq, hnests⟩ := h.nests.of_indent ht
  have hopens := h.opens
  rw [Token.opensOnText_indent ht, Bool.and_eq_true_iff] at hopens
  exact ⟨line, column, heq, ⟨hnests, hopens.2⟩, hopens.1⟩

/-- A `dedent` closes the innermost block, at that block's column. -/
theorem of_dedent {t : Token} (h : LaidOut columns (t :: ts)) (ht : t.kind = .dedent) :
    ∃ line column outer, columns = column :: outer ∧ t = Token.dedent line column ∧
      LaidOut outer ts := by
  obtain ⟨line, column, outer, hcolumns, heq, hnests⟩ := h.nests.of_dedent ht
  have hopens := h.opens
  rw [Token.opensOnText_cons_of_ne (by simp [ht])] at hopens
  exact ⟨line, column, outer, hcolumns, heq, hnests, hopens⟩

end LaidOut

/-! ### From taken pieces to nested ones

A body goes on to the first `dedent`, whichever block that closes. In tokens that are
laid out it is the block's own, which is what `Nested` asks for.
-/

theorem EndsLine.of_prefix (h : EndsLine ts) (hus : us <+: ts) : EndsLine us := by
  intro t ht
  obtain ⟨vs, rfl⟩ := hus
  cases us with
  | nil => cases ht
  | cons u us => exact h t ht

/-- A block whose first token is neither a line end nor a `dedent` is not
empty. -/
theorem Takes.ne_nil_of_startsText {ss : List Stmt} (h : Takes r (.body ss) ts rest)
    (hstart : startsText ts = true) : ss ≠ [] := by
  cases h with
  | bodyEnd => cases hstart
  | dedent ht | bodyNewline ht => simp [startsText, ht] at hstart
  | bodyStatement => exact List.cons_ne_nil _ _

/-- How a piece that is taken from tokens inside these columns splits them. All
but a body leave the columns as they are, and a body closes the innermost. -/
def Piece.Splits (r : Reader) (columns : List Nat) (ts rest : List Token) : Piece → Prop
  | .statement s => ∃ used, ts = used ++ rest ∧ LaidOut columns rest ∧
      ∀ ss us, us <+: rest → Nested r (.body ss) us → Nested r (.body (s :: ss)) (used ++ us)
  | .body ss => ∀ column outer, columns = column :: outer →
      ∃ inner line, ts = inner ++ Token.dedent line column :: rest ∧ LaidOut outer rest ∧
        Nested r (.body ss) inner
  | piece => ∃ used, ts = used ++ rest ∧ LaidOut columns rest ∧ Nested r piece used

theorem Nested.splits {s : Stmt} (h : Nested r (.statement s) ts) (hrest : LaidOut columns rest) :
    (Piece.statement s).Splits r columns (ts ++ rest) rest :=
  ⟨ts, rfl, hrest, fun _ _ _ hbody => .compound h hbody⟩

/-- **What is taken from tokens that are laid out is nested**: it goes up to the
`dedent` of the block that it stands in. -/
theorem Takes.splits {piece : Piece} (h : Takes r piece ts rest) (hts : LaidOut columns ts) :
    piece.Splits r columns ts rest := by
  induction h generalizing columns with
  | line hsimple hends =>
      refine ⟨_, rfl, hts.of_append hsimple.isLayout_eq_false, fun ss us hus hbody => ?_⟩
      exact .line hsimple (hends.of_prefix hus) hbody
  | @semicolon s t ts rest hsimple hvalue ht =>
      refine ⟨ts ++ [t], by simp, ?_, fun ss us hus hbody => ?_⟩
      · exact (hts.of_append hsimple.isLayout_eq_false).of_is ht rfl
      · rw [List.append_assoc]
        exact .semicolon hsimple hvalue ht hbody
  | functionDef ht hname hopening hnames _ ih =>
      have hblock := ((((hts.of_is ht rfl).of_cons (by simp [hname])).of_is hopening rfl).of_append
        hnames.isLayout_eq_false)
      obtain ⟨used, rfl, hrest, hbody⟩ := ih hblock
      have hstatement := Nested.functionDef ht hname hopening hnames hbody
      simpa using hstatement.splits hrest
  | classDef ht hname _ ih =>
      obtain ⟨used, rfl, hrest, hbody⟩ := ih ((hts.of_is ht rfl).of_cons (by simp [hname]))
      exact (Nested.classDef ht hname hbody).splits hrest
  | conditional ht hcondition _ _ ihbody ihmore =>
      obtain ⟨used, rfl, hmore, hbody⟩ :=
        ihbody ((hts.of_is ht rfl).of_append hcondition.isLayout_eq_false)
      obtain ⟨more, rfl, hrest, halternate⟩ := ihmore hmore
      have hstatement := Nested.conditional ht hcondition hbody halternate
      simpa using hstatement.splits hrest
  | whileLoop ht hcondition _ _ ihbody ihmore =>
      obtain ⟨used, rfl, hmore, hbody⟩ :=
        ihbody ((hts.of_is ht rfl).of_append hcondition.isLayout_eq_false)
      obtain ⟨more, rfl, hrest, horelse⟩ := ihmore hmore
      have hstatement := Nested.whileLoop ht hcondition hbody horelse
      simpa using hstatement.splits hrest
  | forLoop ht htarget hin hiter _ _ ihbody ihmore =>
      have hafter := ((hts.of_is ht rfl).of_append htarget.isLayout_eq_false).of_is hin rfl
      obtain ⟨used, rfl, hmore, hbody⟩ := ihbody (hafter.of_append hiter.isLayout_eq_false)
      obtain ⟨more, rfl, hrest, horelse⟩ := ihmore hmore
      have hstatement := Nested.forLoop ht htarget hin hiter hbody horelse
      simpa using hstatement.splits hrest
  | elseIf ht hcondition _ _ ihbody ihmore =>
      obtain ⟨used, rfl, hmore, hbody⟩ :=
        ihbody ((hts.of_is ht rfl).of_append hcondition.isLayout_eq_false)
      obtain ⟨more, rfl, hrest, halternate⟩ := ihmore hmore
      exact ⟨_, by simp, hrest, .elseIf ht hcondition hbody halternate⟩
  | otherwise ht _ ih =>
      obtain ⟨used, rfl, hrest, hbody⟩ := ih (hts.of_is ht rfl)
      exact ⟨_, rfl, hrest, .otherwise ht hbody⟩
  | noAlternate _ => exact ⟨[], rfl, hts, .noAlternate⟩
  | loopElse ht _ ih =>
      obtain ⟨used, rfl, hrest, hbody⟩ := ih (hts.of_is ht rfl)
      exact ⟨_, rfl, hrest, .loopElse ht hbody⟩
  | noLoopElse _ => exact ⟨[], rfl, hts, .noLoopElse⟩
  | block hcolon hnewline hindent hbody ih =>
      -- The column of the `indent` is the one that the body closes.
      obtain ⟨line, column, rfl, hinner, hstart⟩ :=
        ((hts.of_is hcolon rfl).of_newline hnewline).of_indent hindent
      obtain ⟨inner, line', rfl, hrest, hnested⟩ := ih hinner column columns rfl
      have hne := hbody.ne_nil_of_startsText hstart
      have hblock := Nested.block hcolon hnewline hindent
        (show (Token.dedent line' column).kind = .dedent from rfl) rfl hne hnested
      exact ⟨_, by simp, hrest, hblock⟩
  | bodyEnd =>
      rintro column outer rfl
      cases hts.nests
  | dedent ht =>
      rintro column outer rfl
      obtain ⟨line, column', outer', hcolumns, rfl, hrest⟩ := hts.of_dedent ht
      obtain ⟨rfl, rfl⟩ := List.cons.inj hcolumns
      exact ⟨[], line, rfl, hrest, .done⟩
  | bodyNewline ht _ ih =>
      intro column outer hcolumns
      obtain ⟨inner, line, rfl, hrest, hbody⟩ := ih (hts.of_newline ht) column outer hcolumns
      exact ⟨_, line, rfl, hrest, .newline ht hbody⟩
  | bodyStatement _ _ ihs ih =>
      intro column outer hcolumns
      obtain ⟨used, rfl, hrest, hstatement⟩ := ihs hts
      obtain ⟨inner, line, rfl, hrest', hbody⟩ := ih hrest column outer hcolumns
      refine ⟨used ++ inner, line, by simp, hrest', ?_⟩
      exact hstatement _ inner (List.prefix_append _ _) hbody

/-- The tokens of a program that are laid out are nested. -/
theorem FormsProgram.nested {ss : List Stmt} (h : FormsProgram r ss ts) (hts : LaidOut [] ts) :
    Nested r (.body ss) ts := by
  induction h with
  | done => exact .done
  | dedent ht _ _ =>
      obtain ⟨_, _, _, hcolumns, -⟩ := hts.of_dedent ht
      cases hcolumns
  | newline ht _ ih => exact .newline ht (ih (hts.of_newline ht))
  | statement hs _ ih =>
      obtain ⟨used, rfl, hrest, hstatement⟩ := hs.splits hts
      exact hstatement _ _ List.prefix_rfl (ih hrest)

/-! ### From nested pieces to taken ones -/

theorem EndsLine.append_dedent {t : Token} (h : EndsLine ts) (ht : t.kind = .dedent)
    (rest : List Token) : EndsLine (ts ++ t :: rest) := by
  cases ts with
  | nil =>
      rintro _ ⟨⟩
      simp [ht, endsStatement]
  | cons u us => exact h

/-- What follows a nested piece where it is taken. -/
def Piece.TakenBefore (r : Reader) (ts : List Token) : Piece → Prop
  | .block ss => ∀ rest, Takes r (.block ss) (ts ++ rest) rest
  | .body ss => FormsProgram r ss ts ∧
      ∀ t rest, t.kind = .dedent → Takes r (.body ss) (ts ++ t :: rest) rest
  | piece => ∀ rest, NoElse rest → Takes r piece (ts ++ rest) rest

/-- **What is nested is taken** before every `dedent` that closes the block around it. -/
theorem Nested.takenBefore {piece : Piece} (h : Nested r piece ts) : piece.TakenBefore r ts := by
  induction h with
  | functionDef ht hname hopening hnames _ ih =>
      intro rest _
      simpa using Takes.functionDef ht hname hopening hnames (ih rest)
  | classDef ht hname _ ih => exact fun rest _ => .classDef ht hname (ih rest)
  | conditional ht hcondition _ _ ihbody ihmore =>
      intro rest hrest
      simpa using Takes.conditional ht hcondition (ihbody _) (ihmore rest hrest)
  | whileLoop ht hcondition _ _ ihbody ihmore =>
      intro rest hrest
      simpa using Takes.whileLoop ht hcondition (ihbody _) (ihmore rest hrest)
  | forLoop ht htarget hin hiter _ _ ihbody ihmore =>
      intro rest hrest
      simpa using Takes.forLoop ht htarget hin hiter (ihbody _) (ihmore rest hrest)
  | elseIf ht hcondition _ _ ihbody ihmore =>
      intro rest hrest
      simpa using Takes.elseIf ht hcondition (ihbody _) (ihmore rest hrest)
  | otherwise ht _ ih => exact fun rest _ => .otherwise ht (ih rest)
  | noAlternate => exact fun rest hrest => .noAlternate hrest
  | loopElse ht _ ih => exact fun rest _ => .loopElse ht (ih rest)
  | noLoopElse => exact fun rest hrest => .noLoopElse fun t ht => (hrest t ht).2
  | block hcolon hnewline hindent hdedent _ _ _ ih =>
      intro rest
      simpa using Takes.block hcolon hnewline hindent (ih.2 _ rest hdedent)
  | done => exact ⟨.done, fun t rest ht => .dedent ht⟩
  | newline ht _ ih =>
      exact ⟨.newline ht ih.1, fun t rest hdedent => .bodyNewline ht (ih.2 t rest hdedent)⟩
  | line hsimple hends _ ih =>
      refine ⟨.statement (.line hsimple hends) ih.1, fun t rest ht => ?_⟩
      rw [List.append_assoc]
      exact .bodyStatement (.line hsimple (hends.append_dedent ht rest)) (ih.2 t rest ht)
  | semicolon hsimple hvalue hsemicolon _ ih =>
      refine ⟨.statement (.semicolon hsimple hvalue hsemicolon) ih.1, fun t rest ht => ?_⟩
      rw [List.append_assoc]
      exact .bodyStatement (.semicolon hsimple hvalue hsemicolon) (ih.2 t rest ht)
  | compound _ _ ihs ih =>
      -- What follows in the body is no further branch of the statement.
      refine ⟨.statement (ihs _ ih.1.noElse) ih.1, fun t rest ht => ?_⟩
      have hbody := ih.2 t rest ht
      rw [List.append_assoc]
      exact .bodyStatement (ihs _ hbody.noElse_body) hbody

/-- Where the layout has written the tokens, a program is a body of nested
blocks. -/
theorem formsProgram_iff_nested {ss : List Stmt} (hts : LaidOut [] ts) :
    FormsProgram r ss ts ↔ Nested r (.body ss) ts :=
  ⟨fun h => h.nested hts, fun h => h.takenBefore.1⟩

end

end Offside.Grammar
