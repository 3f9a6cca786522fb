import Offside.Proofs.Bodies
import Offside.Proofs.Lexical

/-!
# Offside.Proofs.Leaves

What tokens say about the leaves of statements. In a program that is read from a
source, **names are words, expressions have leaves such as tokens give, and no body is
empty** (`Program.isLexical_of_parse`), at every depth.
-/

namespace Offside

namespace Stmt

mutual

/-- The expressions and names of a statement are such as tokens give, and its bodies have
statements, at every depth. -/
def IsLexical : Stmt → Prop
  | .assign target value | .augAssign target _ value => target.IsLexical ∧ value.IsLexical
  | .expr value | .returnValue (some value) => value.IsLexical
  | .functionDef name params body =>
    Lexeme.isWord name.toList = true ∧ (∀ param ∈ params, Lexeme.isWord param.toList = true) ∧
      BodyIsLexical body
  | .ifElse condition body alternate =>
    condition.IsLexical ∧ BodyIsLexical body ∧ AlternateIsLexical alternate
  | .whileLoop condition body orelse =>
    condition.IsLexical ∧ BodyIsLexical body ∧ BlockIsLexical orelse
  | .forLoop target iter body orelse =>
    target.IsLexical ∧ iter.IsLexical ∧ BodyIsLexical body ∧ BlockIsLexical orelse
  | .classDef name body => Lexeme.isWord name.toList = true ∧ BodyIsLexical body
  | .importModule path => ∀ part ∈ path, Lexeme.isWord part.toList = true
  | .returnValue none | .breakLoop | .continueLoop | .pass => True

/-- The rest of a conditional is such as tokens give. -/
def AlternateIsLexical : Alternate → Prop
  | .none => True
  | .elseIf condition body alternate =>
    condition.IsLexical ∧ BodyIsLexical body ∧ AlternateIsLexical alternate
  | .otherwise body => BlockIsLexical body

/-- Statements are such as tokens give. -/
def BlockIsLexical : List Stmt → Prop
  | [] => True
  | s :: ss => IsLexical s ∧ BlockIsLexical ss

/-- A body is such as tokens give: it has statements. -/
def BodyIsLexical : List Stmt → Prop
  | [] => False
  | s :: ss => IsLexical s ∧ BlockIsLexical ss

end

theorem bodyIsLexical_iff {ss : List Stmt} : BodyIsLexical ss ↔ ss ≠ [] ∧ BlockIsLexical ss := by
  cases ss with
  | nil => simp [BodyIsLexical]
  | cons s ss => simp [BodyIsLexical, BlockIsLexical]

end Stmt

namespace Grammar

variable {r : Reader} {ts : List Token}

/-- A piece of a program is such as tokens give. -/
def Piece.IsLexical : Piece → Prop
  | .statement s => s.IsLexical
  | .block ss => Stmt.BodyIsLexical ss
  | .body ss | .orelse ss => Stmt.BlockIsLexical ss
  | .alternate a => Stmt.AlternateIsLexical a

theorem MoreParts.isWord {parts : List String} (h : MoreParts parts ts)
    (hts : ∀ t ∈ ts, t.IsLexical) : ∀ part ∈ parts, Lexeme.isWord part.toList = true := by
  induction h with
  | done => simp
  | next _ hkind _ ih =>
      exact List.forall_mem_cons.2
        ⟨(hts _ (by simp)).word hkind, ih fun t ht => hts t (by simp [ht])⟩

theorem MoreParameters.isWord {names : List String} (h : MoreParameters names ts)
    (hts : ∀ t ∈ ts, t.IsLexical) : ∀ name ∈ names, Lexeme.isWord name.toList = true := by
  induction h with
  | done => simp
  | next _ hkind _ ih =>
      exact List.forall_mem_cons.2
        ⟨(hts _ (by simp)).word hkind, ih fun t ht => hts t (by simp [ht])⟩

theorem Parameters.isWord {names : List String} (h : Parameters names ts)
    (hts : ∀ t ∈ ts, t.IsLexical) : ∀ name ∈ names, Lexeme.isWord name.toList = true := by
  cases h with
  | none => simp
  | some hkind hmore =>
      exact List.forall_mem_cons.2
        ⟨(hts _ (by simp)).word hkind, hmore.isWord fun t ht => hts t (by simp [ht])⟩

theorem Simple.isLexical {s : Stmt} (hread : FString.Gives Expr.IsLexical r) (h : Simple r s ts)
    (hts : ∀ t ∈ ts, t.IsLexical) : s.IsLexical := by
  cases h with
  | bareReturn | breakLoop | continueLoop | pass => trivial
  | returnValue _ hvalue => exact hvalue.isLexical hread fun t ht => hts t (by simp [ht])
  | importModule _ hfirst hparts =>
      exact List.forall_mem_cons.2
        ⟨(hts _ (by simp)).word hfirst, hparts.isWord fun t ht => hts t (by simp [ht])⟩
  | expr hvalue => exact hvalue.isLexical hread hts
  | @assignment _ op _ _ _ _ htarget _ hvalue _ =>
      have htarget' := htarget.isLexical hread fun t ht => hts t (by simp [ht])
      have hvalue' := hvalue.isLexical hread fun t ht => hts t (by simp [ht])
      cases op <;> exact ⟨htarget', hvalue'⟩

/-- What is read from tokens of a source is such as tokens give. -/
theorem Nested.isLexical {piece : Piece} (hread : FString.Gives Expr.IsLexical r)
    (h : Nested r piece ts) (hts : ∀ t ∈ ts, t.IsLexical) : piece.IsLexical := by
  induction h with
  | functionDef _ hname _ hparams _ ih =>
      exact ⟨(hts _ (by simp)).word hname, hparams.isWord fun t ht => hts t (by simp [ht]),
        ih fun t ht => hts t (by simp [ht])⟩
  | classDef _ hname _ ih =>
      exact ⟨(hts _ (by simp)).word hname, ih fun t ht => hts t (by simp [ht])⟩
  | conditional _ hcondition _ _ ihbody ihmore | whileLoop _ hcondition _ _ ihbody ihmore
  | elseIf _ hcondition _ _ ihbody ihmore =>
      exact ⟨hcondition.isLexical hread fun t ht => hts t (by simp [ht]),
        ihbody fun t ht => hts t (by simp [ht]), ihmore fun t ht => hts t (by simp [ht])⟩
  | forLoop _ htarget _ hiter _ _ ihbody ihmore =>
      exact ⟨htarget.isLexical hread fun t ht => hts t (by simp [ht]),
        hiter.isLexical hread fun t ht => hts t (by simp [ht]),
        ihbody fun t ht => hts t (by simp [ht]), ihmore fun t ht => hts t (by simp [ht])⟩
  | otherwise _ _ ih | loopElse _ _ ih =>
      exact (Stmt.bodyIsLexical_iff.1 (ih fun t ht => hts t (by simp [ht]))).2
  | noAlternate | noLoopElse | done => trivial
  | block _ _ _ _ _ hne _ ih =>
      exact Stmt.bodyIsLexical_iff.2 ⟨hne, ih fun t ht => hts t (by simp [ht])⟩
  | newline _ _ ih => exact ih fun t ht => hts t (by simp [ht])
  | line hsimple _ _ ih | semicolon hsimple _ _ _ ih =>
      exact ⟨hsimple.isLexical hread fun t ht => hts t (by simp [ht]),
        ih fun t ht => hts t (by simp [ht])⟩
  | compound _ _ ihs ih =>
      exact ⟨ihs fun t ht => hts t (by simp [ht]), ih fun t ht => hts t (by simp [ht])⟩

end Grammar

/-- The statements of a source have names that are words, and bodies that are not empty. -/
theorem Program.isLexical_of_parse {source : String} {p : Program}
    (h : Program.parse source = .ok p) : Stmt.BlockIsLexical p.statements := by
  have hnested := (Program.ofTokens_eq_ok_iff.1 h).nested (Token.laidOut_ofProgram source.toList)
  exact hnested.isLexical Grammar.gives_isLexical fun _ => Token.isLexical_of_mem_ofProgram

end Offside
