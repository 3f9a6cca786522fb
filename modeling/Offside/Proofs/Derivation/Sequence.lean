import Offside.Proofs.Derivation.Nested

/-!
# Offside.Proofs.Derivation.Sequence

Bodies **one after the other**. Two bodies make up one if the last line of the
first is over where the second starts (`Nested.append`), and a body of two parts
comes from two lists of tokens (`Nested.split`). Line ends in front of a body can
be taken away, and the end of a block may move down over line ends
(`Nested.padded`).
-/

namespace Offside.Grammar

variable {r : Reader} {ss ss' : List Stmt} {t : Token} {ts us : List Token}

/-! ### The first token -/

/-- Every statement has a first token. -/
theorem Nested.exists_cons {s : Stmt} (h : Nested r (.statement s) ts) :
    ∃ t us, ts = t :: us ∧ startsStatement t = true := by
  have htaken := h.takenBefore [] (by simp [NoElse])
  rw [List.append_nil] at htaken
  exact htaken.exists_cons

theorem kind_ne_newline (h : startsStatement t = true) : t.kind ≠ .newline := by
  intro hkind
  have hends := endsStatement_of_startsStatement h
  rw [hkind] at hends
  cases hends

/-- A body starts with a line end or with a statement, and if with a line end,
then the rest is the same body. -/
theorem Nested.head (h : Nested r (.body ss) (t :: ts)) :
    t.kind = .newline ∧ Nested r (.body ss) ts ∨ startsStatement t = true := by
  generalize hus : t :: ts = us at h
  cases h with
  | done => cases hus
  | newline ht hbody =>
      obtain ⟨rfl, rfl⟩ := List.cons.inj hus
      exact .inl ⟨ht, hbody⟩
  | line hsimple _ _ | semicolon hsimple _ _ _ =>
      obtain ⟨u, vs, rfl, hstart⟩ := hsimple.exists_cons
      obtain ⟨rfl, -⟩ := List.cons.inj hus
      exact .inr (Bool.or_eq_true_iff.2 (.inl hstart))
  | compound hs _ =>
      obtain ⟨u, vs, rfl, hstart⟩ := hs.exists_cons
      obtain ⟨rfl, -⟩ := List.cons.inj hus
      exact .inr hstart

/-- A body goes on after a line end. -/
theorem Nested.of_newline (h : Nested r (.body ss) (t :: ts)) (ht : t.kind = .newline) :
    Nested r (.body ss) ts := by
  rcases h.head with ⟨-, hbody⟩ | hstart
  · exact hbody
  · exact absurd ht (kind_ne_newline hstart)

/-- Line ends alone are an empty body. -/
theorem Nested.newlines (h : ∀ t ∈ ts, t.kind = .newline) : Nested r (.body []) ts := by
  induction ts with
  | nil => exact .done
  | cons t ts ih =>
      obtain ⟨ht, hts⟩ := List.forall_mem_cons.1 h
      exact .newline ht (ih hts)

/-! ### Two bodies

A body may follow another one where the last line of the first is over. That line may
end with the body, so whether it is over can depend on the second one.
-/

/-- The last line of `ts` ends there or where `us` starts. -/
def LineIsOver (ts us : List Token) : Prop :=
  ∀ t ∈ ts.getLast?, t.kind.isLayout = true ∨ EndsLine us

theorem LineIsOver.of_append {vs : List Token} (h : LineIsOver (vs ++ ts) us) :
    LineIsOver ts us := by
  intro t ht
  refine h t ?_
  rw [List.getLast?_append, Option.mem_def.1 ht]
  rfl

theorem LineIsOver.of_isLayout (h : ∀ t ∈ ts, t.kind.isLayout = true) : LineIsOver ts us :=
  fun t ht => .inl (h t (List.mem_of_getLast? ht))

/-- Whether a line is over is decided by its last token. -/
theorem LineIsOver.append_left (h : LineIsOver ts us) (hne : ts ≠ []) (front : List Token) :
    LineIsOver (front ++ ts) us := by
  intro t ht
  rw [List.getLast?_append_of_ne_nil front hne] at ht
  exact h t ht

theorem isLayout_of_newlines {newlines : List Token} (h : ∀ t ∈ newlines, t.kind = .newline) :
    ∀ t ∈ newlines, t.kind.isLayout = true := by
  intro t ht
  rw [h t ht]
  rfl

/-- Line ends end a line, and so does nothing at all. -/
theorem EndsLine.of_newlines (h : ∀ t ∈ ts, t.kind = .newline) : EndsLine ts := by
  intro t ht
  rw [h t (List.mem_of_mem_head? ht)]
  rfl

theorem Simple.ne_nil {s : Stmt} (h : Simple r s ts) : ts ≠ [] := by
  obtain ⟨t, us, rfl, -⟩ := h.exists_cons
  exact List.cons_ne_nil t us

/-- A line that is over ends where the next body starts. -/
theorem Simple.endsLine {s : Stmt} (h : Simple r s ts) (hover : LineIsOver ts us) :
    EndsLine us := by
  have hlast := List.getLast?_eq_some_getLast h.ne_nil
  rcases hover _ hlast with hlayout | hends
  · have hinside := h.isLayout_eq_false _ (List.getLast_mem h.ne_nil)
    rw [hlayout] at hinside
    cases hinside
  · exact hends

/-- **Two bodies make one**, if the last line of the first is over where the second
starts. -/
theorem Nested.append (h : Nested r (.body ss) ts) (hus : Nested r (.body ss') us)
    (hover : LineIsOver ts us) : Nested r (.body (ss ++ ss')) (ts ++ us) := by
  generalize hpiece : Piece.body ss = piece at h
  induction h generalizing ss with
  | done =>
      obtain rfl := Piece.body.inj hpiece
      exact hus
  | @newline t _ ts ht _ ih =>
      obtain rfl := Piece.body.inj hpiece
      have hrest : LineIsOver ts us :=
        LineIsOver.of_append (show LineIsOver ([t] ++ ts) us from hover)
      exact .newline ht (ih hrest rfl)
  | @line s _ ts rest hsimple hends _ ih =>
      obtain rfl := Piece.body.inj hpiece
      have hline : EndsLine (rest ++ us) := by
        cases rest with
        | nil => exact hsimple.endsLine (by simpa using hover)
        | cons t rest => exact hends
      rw [List.append_assoc]
      exact .line hsimple hline (ih hover.of_append rfl)
  | @semicolon s _ t ts rest hsimple hvalue ht _ ih =>
      obtain rfl := Piece.body.inj hpiece
      have hrest : LineIsOver rest us :=
        LineIsOver.of_append (show LineIsOver ((ts ++ [t]) ++ rest) us by simpa using hover)
      rw [List.append_assoc]
      exact .semicolon hsimple hvalue ht (ih hrest rfl)
  | compound hs _ _ ih =>
      obtain rfl := Piece.body.inj hpiece
      rw [List.append_assoc]
      exact .compound hs (ih hover.of_append rfl)
  | _ => cases hpiece

/-- **A body falls apart** between any two of its statements. -/
theorem Nested.split (h : Nested r (.body (ss ++ ss')) ts) :
    ∃ us vs, ts = us ++ vs ∧ Nested r (.body ss) us ∧ Nested r (.body ss') vs := by
  generalize hpiece : Piece.body (ss ++ ss') = piece at h
  -- Before each statement, `ss` is either used up or starts with it.
  induction h generalizing ss with
  | done =>
      obtain ⟨rfl, rfl⟩ := List.append_eq_nil_iff.1 (Piece.body.inj hpiece)
      exact ⟨[], [], rfl, .done, .done⟩
  | @newline t _ _ ht _ ih =>
      obtain ⟨us, vs, rfl, hus, hvs⟩ := ih hpiece
      exact ⟨t :: us, vs, rfl, .newline ht hus, hvs⟩
  | line hsimple hends hrest ih =>
      rcases List.append_eq_cons_iff.1 (Piece.body.inj hpiece) with ⟨rfl, rfl⟩ | ⟨ss, rfl, rfl⟩
      · exact ⟨[], _, rfl, .done, .line hsimple hends hrest⟩
      · obtain ⟨us, vs, rfl, hus, hvs⟩ := ih rfl
        have hline := hends.of_prefix (List.prefix_append us vs)
        exact ⟨_, vs, (List.append_assoc ..).symm, .line hsimple hline hus, hvs⟩
  | semicolon hsimple hvalue ht hrest ih =>
      rcases List.append_eq_cons_iff.1 (Piece.body.inj hpiece) with ⟨rfl, rfl⟩ | ⟨ss, rfl, rfl⟩
      · exact ⟨[], _, rfl, .done, .semicolon hsimple hvalue ht hrest⟩
      · obtain ⟨us, vs, rfl, hus, hvs⟩ := ih rfl
        exact ⟨_, vs, by simp, .semicolon hsimple hvalue ht hus, hvs⟩
  | compound hs hrest _ ih =>
      rcases List.append_eq_cons_iff.1 (Piece.body.inj hpiece) with ⟨rfl, rfl⟩ | ⟨ss, rfl, rfl⟩
      · exact ⟨[], _, rfl, .done, .compound hs hrest⟩
      · obtain ⟨us, vs, rfl, hus, hvs⟩ := ih rfl
        exact ⟨_, vs, (List.append_assoc ..).symm, .compound hs hus, hvs⟩
  | _ => cases hpiece

/-! ### Line ends before the end of a block -/

/-- The same tokens, with line ends more before some of the `dedent` tokens. The
lines of these do not matter. -/
inductive Padded : List Token → List Token → Prop where
  | nil : Padded [] []
  | cons {t : Token} {ts us : List Token} :
      t.kind ≠ .dedent → Padded ts us → Padded (t :: ts) (t :: us)
  | dedent {t u : Token} {newlines ts us : List Token} :
      t.kind = .dedent → (∀ n ∈ newlines, n.kind = .newline) → u.kind = .dedent →
      u.text = t.text → Padded ts us → Padded (t :: ts) (newlines ++ u :: us)

namespace Padded

variable {vs : List Token}

theorem append_left (h : Padded us vs) (ts : List Token) : Padded (ts ++ us) (ts ++ vs) := by
  induction ts with
  | nil => exact h
  | cons t ts ih =>
      by_cases ht : t.kind = .dedent
      · exact @dedent t t [] _ _ ht (by simp) ht rfl ih
      · exact .cons ht ih

/-- Line ends are added to each part on its own. -/
theorem exists_append (h : Padded (ts ++ us) vs) :
    ∃ ts' us', vs = ts' ++ us' ∧ Padded ts ts' ∧ Padded us us' := by
  induction ts generalizing vs with
  | nil => exact ⟨[], vs, rfl, .nil, h⟩
  | cons t ts ih =>
      cases h with
      | cons ht hrest =>
          obtain ⟨ts', us', rfl, hts, hus⟩ := ih hrest
          exact ⟨t :: ts', us', rfl, .cons ht hts, hus⟩
      | dedent ht hnewlines hu htext hrest =>
          obtain ⟨ts', us', rfl, hts, hus⟩ := ih hrest
          exact ⟨_, us', by simp, .dedent ht hnewlines hu htext hts, hus⟩

/-- Nothing is added where no block ends. -/
theorem eq_of_isLayout (h : Padded ts us) (hts : ∀ t ∈ ts, t.kind.isLayout = false) :
    us = ts := by
  induction h with
  | nil => rfl
  | cons _ _ ih => rw [ih (List.forall_mem_cons.1 hts).2]
  | dedent ht => simpa [ht] using (List.forall_mem_cons.1 hts).1

/-- Tokens inside a line stay, and the rest is padded. -/
theorem of_append (h : Padded (ts ++ us) vs) (hts : ∀ t ∈ ts, t.kind.isLayout = false) :
    ∃ us', vs = ts ++ us' ∧ Padded us us' := by
  obtain ⟨ts', us', rfl, hpadded, hus⟩ := h.exists_append
  rw [hpadded.eq_of_isLayout hts]
  exact ⟨us', rfl, hus⟩

theorem of_cons (h : Padded (t :: ts) vs) (ht : t.kind ≠ .dedent) :
    ∃ us, vs = t :: us ∧ Padded ts us := by
  cases h with
  | cons _ hrest => exact ⟨_, rfl, hrest⟩
  | dedent hdedent => exact absurd hdedent ht

theorem of_is {kind : TokenKind} {text : String} (h : Padded (t :: ts) vs)
    (ht : t.is kind text = true) (hkind : kind ≠ .dedent) : ∃ us, vs = t :: us ∧ Padded ts us :=
  h.of_cons (by rwa [(Token.is_iff.1 ht).1])

/-- A line that ends still does with more line ends. -/
theorem endsLine (h : Padded ts us) (hts : EndsLine ts) : EndsLine us := by
  cases h with
  | nil => exact hts
  | cons _ _ => exact hts
  | @dedent _ u newlines _ us _ hnewlines hu _ _ =>
      exact (EndsLine.of_newlines hnewlines).append_dedent hu us

end Padded

/-- Line ends before the end of a block do not matter. -/
theorem Nested.padded {piece : Piece} (h : Nested r piece ts) (hus : Padded ts us) :
    Nested r piece us := by
  induction h generalizing us with
  | functionDef ht hname hopening hnames _ ih =>
      obtain ⟨_, rfl, hname'⟩ := hus.of_is ht (by simp)
      obtain ⟨_, rfl, hopening'⟩ := hname'.of_cons (by simp [hname])
      obtain ⟨_, rfl, hnames'⟩ := hopening'.of_is hopening (by simp)
      obtain ⟨_, rfl, hbody⟩ := hnames'.of_append hnames.isLayout_eq_false
      exact .functionDef ht hname hopening hnames (ih hbody)
  | classDef ht hname _ ih =>
      obtain ⟨_, rfl, hname'⟩ := hus.of_is ht (by simp)
      obtain ⟨_, rfl, hbody⟩ := hname'.of_cons (by simp [hname])
      exact .classDef ht hname (ih hbody)
  | conditional ht hcondition _ _ ihbody ihmore =>
      obtain ⟨_, rfl, hcondition'⟩ := hus.of_is ht (by simp)
      obtain ⟨_, rfl, hbranches⟩ := hcondition'.of_append hcondition.isLayout_eq_false
      obtain ⟨_, _, rfl, hbody, hmore⟩ := hbranches.exists_append
      exact .conditional ht hcondition (ihbody hbody) (ihmore hmore)
  | whileLoop ht hcondition _ _ ihbody ihmore =>
      obtain ⟨_, rfl, hcondition'⟩ := hus.of_is ht (by simp)
      obtain ⟨_, rfl, hbranches⟩ := hcondition'.of_append hcondition.isLayout_eq_false
      obtain ⟨_, _, rfl, hbody, hmore⟩ := hbranches.exists_append
      exact .whileLoop ht hcondition (ihbody hbody) (ihmore hmore)
  | forLoop ht htarget hin hiter _ _ ihbody ihmore =>
      obtain ⟨_, rfl, htarget'⟩ := hus.of_is ht (by simp)
      obtain ⟨_, rfl, hin'⟩ := htarget'.of_append htarget.isLayout_eq_false
      obtain ⟨_, rfl, hiter'⟩ := hin'.of_is hin (by simp)
      obtain ⟨_, rfl, hbranches⟩ := hiter'.of_append hiter.isLayout_eq_false
      obtain ⟨_, _, rfl, hbody, hmore⟩ := hbranches.exists_append
      exact .forLoop ht htarget hin hiter (ihbody hbody) (ihmore hmore)
  | elseIf ht hcondition _ _ ihbody ihmore =>
      obtain ⟨_, rfl, hcondition'⟩ := hus.of_is ht (by simp)
      obtain ⟨_, rfl, hbranches⟩ := hcondition'.of_append hcondition.isLayout_eq_false
      obtain ⟨_, _, rfl, hbody, hmore⟩ := hbranches.exists_append
      exact .elseIf ht hcondition (ihbody hbody) (ihmore hmore)
  | otherwise ht _ ih =>
      obtain ⟨_, rfl, hbody⟩ := hus.of_is ht (by simp)
      exact .otherwise ht (ih hbody)
  | noAlternate =>
      cases hus
      exact .noAlternate
  | loopElse ht _ ih =>
      obtain ⟨_, rfl, hbody⟩ := hus.of_is ht (by simp)
      exact .loopElse ht (ih hbody)
  | noLoopElse =>
      cases hus
      exact .noLoopElse
  | block hcolon hnewline hindent hdedent htext hne _ ih =>
      obtain ⟨_, rfl, hnewline'⟩ := hus.of_is hcolon (by simp)
      obtain ⟨_, rfl, hindent'⟩ := hnewline'.of_cons (by simp [hnewline])
      obtain ⟨_, rfl, hbody'⟩ := hindent'.of_cons (by simp [hindent])
      obtain ⟨inner, closing, rfl, hinner, hclosing⟩ := hbody'.exists_append
      cases hclosing with
      | cons hkind => exact absurd hdedent hkind
      | @dedent _ u newlines _ _ _ hnewlines hu hsame hnil =>
          cases hnil
          -- The new line ends become part of the body.
          have hbody : Nested r (.body (_ ++ [])) (inner ++ newlines) :=
            (ih hinner).append (.newlines hnewlines) fun _ _ => .inr (.of_newlines hnewlines)
          rw [List.append_nil] at hbody
          have hblock := Nested.block hcolon hnewline hindent hu (hsame.trans htext) hne hbody
          simpa using hblock
  | done =>
      cases hus
      exact .done
  | newline ht _ ih =>
      obtain ⟨_, rfl, hbody⟩ := hus.of_cons (by simp [ht])
      exact .newline ht (ih hbody)
  | line hsimple hends _ ih =>
      obtain ⟨_, rfl, hbody⟩ := hus.of_append hsimple.isLayout_eq_false
      exact .line hsimple (hbody.endsLine hends) (ih hbody)
  | semicolon hsimple hvalue ht _ ih =>
      obtain ⟨_, rfl, ht'⟩ := hus.of_append hsimple.isLayout_eq_false
      obtain ⟨_, rfl, hbody⟩ := ht'.of_is ht (by simp)
      exact .semicolon hsimple hvalue ht (ih hbody)
  | compound _ _ ihs ih =>
      obtain ⟨_, _, rfl, hs, hbody⟩ := hus.exists_append
      exact .compound (ihs hs) (ih hbody)

end Offside.Grammar
