import Offside.Grammar.Nesting
import Offside.Proofs.Derivation.Likeness

/-!
# Offside.Proofs.Placeholders

Expressions **in the placeholders** of f-strings. What holds of every expression
that tokens of an expression form, as long as it holds of the expressions in the
f-strings among these tokens, holds of the expressions in every f-string
(`FString.read_induction`).
-/

namespace Offside

namespace FString

/-- There is one text piece more than there are placeholders, and each expression
is read from a placeholder. -/
theorem Body.read_eq_ok {line : Nat} {expression : List Char → Except Failure Expr} {b : Body}
    {quasis : List String} {es : List Expr} (h : b.read line expression = .ok (quasis, es)) :
    quasis.length = es.length + 1 ∧
      ∀ e ∈ es, ∃ source ∈ b.sources, expression source = .ok e := by
  induction b generalizing quasis es with
  | text chars =>
      obtain ⟨rfl, rfl⟩ := Prod.mk.inj (Except.ok.inj h)
      exact ⟨rfl, by simp⟩
  | hole chars source rest ih =>
      cases hfirst : expression source with
      | error failure => simp [Body.read, hfirst, bind, Except.bind] at h
      | ok e =>
          cases hrest : rest.read line expression with
          | error failure => simp [Body.read, hfirst, hrest, bind, Except.bind] at h
          | ok parts =>
              obtain ⟨rfl, rfl⟩ : _ = quasis ∧ e :: parts.2 = es := by
                simpa [Body.read, hfirst, hrest, bind, Except.bind, pure, Except.pure] using h
              obtain ⟨hlength, hmem⟩ := ih hrest
              refine ⟨by simp [hlength], List.forall_mem_cons.2 ⟨?_, fun e' he' => ?_⟩⟩
              · exact ⟨source, List.mem_cons_self, hfirst⟩
              · obtain ⟨source', hsource', hread⟩ := hmem e' he'
                exact ⟨source', List.mem_cons_of_mem source hsource', hread⟩
  | broken fault => cases h

/-- A reader gives one text piece more than expressions, and these have a
property. -/
def Gives (P : Expr → Prop) (r : Grammar.Reader) : Prop :=
  ∀ text line quasis es, r text line = .ok (quasis, es) →
    quasis.length = es.length + 1 ∧ ∀ e ∈ es, P e

/-- A property of expressions holds of those in f-strings if it passes from the
f-strings among the tokens of an expression to the expression. -/
theorem read_induction {P : Expr → Prop}
    (hstep : ∀ r source line e, Gives P r →
      Grammar.Forms r (.expression 0 e) (Token.ofExpression source line) → P e)
    (content : List Char) {line : Nat} {quasis : List String} {es : List Expr}
    (h : read content line = .ok (quasis, es)) :
    quasis.length = es.length + 1 ∧ ∀ e ∈ es, P e := by
  rw [read] at h
  obtain ⟨hlength, hmem⟩ := Body.read_eq_ok h
  refine ⟨hlength, fun e he => ?_⟩
  obtain ⟨source, -, hread⟩ := hmem e he
  refine hstep _ source line e ?_ (whole_eq_ok_iff.1 hread)
  intro text line' quasis' es' hinner
  by_cases hshorter : text.toList.length < content.length
  · simp only [if_pos hshorter] at hinner
    exact read_induction hstep text.toList hinner
  · simp only [if_neg hshorter] at hinner
    cases hinner
termination_by content.length

end FString

theorem Program.gives_fstringReader {P : Expr → Prop}
    (hstep : ∀ r source line e, FString.Gives P r →
      Grammar.Forms r (.expression 0 e) (Token.ofExpression source line) → P e) :
    FString.Gives P fstringReader :=
  fun text _ _ _ h => FString.read_induction hstep text.toList h

end Offside
