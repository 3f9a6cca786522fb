import Offside.Grammar.Nesting
import Offside.Proofs.Derivation.Statement
import Offside.Proofs.Lines

/-!
# Offside.Proofs.Derivation.Likeness

What the grammar does **not** look at. Two lists of tokens are *alike* if they
differ only

* in their lines,
* in the columns that blocks carry, and
* in the number of line ends in a row, unless a block opens after them.

Main statement: `FormsProgram.like`, by which alike tokens form programs that
differ in their lines only.

Design points:

* Lines are compared through two functions `f` and `g`: a line `l` on one side
  goes with a line `k` on the other if `f l = g k`. With two constant functions
  lines do not matter at all; with `f` a shift and `g` the identity, the lines of
  the one side are those of the other, shifted.
* The relation is symmetric, so a statement about tokens that have a derivation
  gives one about tokens that have none.
* The text of an f-string is read at the line of its token. That reading it at
  another line gives the same expressions but for their lines
  (`FString.read_relabels`) is shown by induction on the length of the text, since
  there may be f-strings in it.
-/

namespace Offside

/-- The kinds of token that stand for the layout of the source. -/
@[simp] def TokenKind.isLayout : TokenKind → Bool
  | .newline | .indent | .dedent => true
  | _ => false

theorem kind_ne_newline_of_isLayout {kind : TokenKind} (h : kind.isLayout = false) :
    kind ≠ .newline := by
  rintro rfl
  cases h

/-! ### Tokens -/

namespace Token

/-- The grammar does not tell the tokens apart, but for their lines. -/
structure Same (t u : Token) : Prop where
  kind : u.kind = t.kind
  text : t.kind.isLayout = false → u.text = t.text

namespace Same

variable {t u : Token}

theorem symm (h : Same t u) : Same u t :=
  ⟨h.kind.symm, fun hlayout => (h.text (by rwa [← h.kind])).symm⟩

/-- Tokens that are the same pass the same tests. -/
theorem is_eq (h : Same t u) (kind : TokenKind) (text : String) (hkind : kind.isLayout = false) :
    u.is kind text = t.is kind text := by
  by_cases ht : t.kind = kind
  · simp only [Token.is, h.kind, h.text (by rwa [ht])]
  · simp [Token.is, h.kind, ht]

theorem is_of_is (h : Same t u) {kind : TokenKind} {text : String} (ht : t.is kind text = true)
    (hkind : kind.isLayout = false) : u.is kind text = true := by
  rwa [h.is_eq kind text hkind]

theorem unaryOp?_eq (h : Same t u) : Grammar.unaryOp? u = Grammar.unaryOp? t := by
  simp only [Grammar.unaryOp?, h.is_eq .operator _ rfl, h.is_eq .keyword _ rfl]

theorem binaryOp?_eq (h : Same t u) : Grammar.binaryOp? u = Grammar.binaryOp? t := by
  simp only [Grammar.binaryOp?, h.kind]
  split
  · rename_i hkind
    rw [h.text (by rw [hkind]; rfl)]
  · rename_i hkind
    rw [h.text (by rw [hkind]; rfl)]
  · rfl

theorem assignment?_eq (h : Same t u) : Grammar.assignment? u = Grammar.assignment? t := by
  simp only [Grammar.assignment?, h.kind]
  split
  · rename_i hkind
    rw [h.text (by rw [hkind]; rfl)]
  · rfl

end Same

end Token

/-! ### Lists of tokens

`Like` allows more line ends in a row on one side, but not before a block. Each lemma
says what one side has for what the other has.
-/

namespace Grammar

/-- Tokens that are alike, but for the number of line ends in a row where no
block opens. -/
inductive Like (f g : Nat → Nat) : List Token → List Token → Prop where
  | nil : Like f g [] []
  | cons {t u : Token} {ts us : List Token} :
      t.kind ≠ .newline → t.Same u → f t.line = g u.line → Like f g ts us →
      Like f g (t :: ts) (u :: us)
  | newlines {t u : Token} {xs ys ts us : List Token} :
      t.kind = .newline → u.kind = .newline → (∀ x ∈ xs, x.kind = .newline) →
      (∀ y ∈ ys, y.kind = .newline) →
      (xs = [] ∧ ys = [] ∨ ∀ i ∈ ts.head?, i.kind ≠ .indent) → Like f g ts us →
      Like f g (t :: (xs ++ ts)) (u :: (ys ++ us))

namespace Like

variable {f g : Nat → Nat} {ts us rest : List Token}

theorem newline {t u : Token} (ht : t.kind = .newline) (hu : u.kind = .newline)
    (h : Like f g ts us) : Like f g (t :: ts) (u :: us) :=
  @newlines f g t u [] [] ts us ht hu (by simp) (by simp) (.inl ⟨rfl, rfl⟩) h

/-- Tokens that are alike start in the same way. -/
theorem head (h : Like f g ts us) : ∀ u ∈ us.head?, ∃ t ∈ ts.head?, t.Same u := by
  cases h with
  | nil => simp
  | cons _ hsame =>
      rintro _ ⟨⟩
      exact ⟨_, rfl, hsame⟩
  | newlines ht hu =>
      rintro _ ⟨⟩
      exact ⟨_, rfl, hu.trans ht.symm, by simp [ht, TokenKind.isLayout]⟩

theorem symm (h : Like f g ts us) : Like g f us ts := by
  induction h with
  | nil => exact .nil
  | cons hkind hsame hline _ ih =>
      exact .cons (by rwa [hsame.kind]) hsame.symm hline.symm ih
  | newlines ht hu hxs hys hindent hrest ih =>
      refine .newlines hu ht hys hxs (hindent.imp And.symm fun hindent i hi => ?_) ih
      obtain ⟨t, ht, hsame⟩ := hrest.head i hi
      rw [hsame.kind]
      exact hindent t ht

/-- A token that is no line end has its counterpart at the same place. -/
theorem cons_inv {t : Token} (h : Like f g (t :: ts) us) (hkind : t.kind ≠ .newline) :
    ∃ u vs, us = u :: vs ∧ t.Same u ∧ f t.line = g u.line ∧ Like f g ts vs := by
  cases h with
  | cons _ hsame hline hrest => exact ⟨_, _, rfl, hsame, hline, hrest⟩
  | newlines ht => exact absurd ht hkind

/-- Tokens without layout have their counterparts one by one. -/
theorem append_inv (h : Like f g (ts ++ rest) us) (hts : ∀ t ∈ ts, t.kind.isLayout = false) :
    ∃ vs ws, us = vs ++ ws ∧ Like f g ts vs ∧ Like f g rest ws := by
  induction ts generalizing us with
  | nil => exact ⟨[], us, rfl, .nil, h⟩
  | cons t ts ih =>
      have hkind : t.kind ≠ .newline := kind_ne_newline_of_isLayout (hts t List.mem_cons_self)
      obtain ⟨u, vs, rfl, hsame, hline, hrest⟩ := h.cons_inv hkind
      obtain ⟨vs, ws, rfl, hvs, hws⟩ := ih hrest fun t ht => hts t (List.mem_cons_of_mem _ ht)
      exact ⟨u :: vs, ws, rfl, .cons hkind hsame hline hvs, hws⟩

theorem singleton_inv {t : Token} (h : Like f g [t] us) (hkind : t.kind ≠ .newline) :
    ∃ u, us = [u] ∧ t.Same u ∧ f t.line = g u.line := by
  obtain ⟨u, vs, rfl, hsame, hline, hrest⟩ := h.cons_inv hkind
  cases hrest
  exact ⟨u, rfl, hsame, hline⟩

/-- The line end before a block is alone. -/
theorem block_inv {newline indent : Token} (h : Like f g (newline :: indent :: ts) us)
    (hnewline : newline.kind = .newline) (hindent : indent.kind = .indent) :
    ∃ u v vs, us = u :: v :: vs ∧ u.kind = .newline ∧ v.kind = .indent ∧ Like f g ts vs := by
  generalize htokens : newline :: indent :: ts = tokens at h
  cases h with
  | nil => cases htokens
  | cons hkind =>
      obtain ⟨rfl, -⟩ := List.cons.inj htokens
      exact absurd hnewline hkind
  | @newlines _ u xs ys vs ws _ hu hxs _ hblock hrest =>
      obtain ⟨rfl, htail⟩ := List.cons.inj htokens
      cases xs with
      | cons x xs =>
          obtain ⟨rfl, -⟩ := List.cons.inj htail
          cases hindent.symm.trans (hxs _ List.mem_cons_self)
      | nil =>
          obtain rfl : indent :: ts = vs := htail
          rcases hblock with ⟨-, rfl⟩ | hblock
          · obtain ⟨v, vs, rfl, hsame, -, hrest⟩ := hrest.cons_inv (by simp [hindent])
            exact ⟨u, v, vs, rfl, hu, hsame.kind.trans hindent, hrest⟩
          · exact absurd hindent (hblock _ rfl)

/-- After a line end the tokens are like those after the line ends on the other
side, or the line end has no counterpart. -/
theorem newline_inv {t : Token} (h : Like f g (t :: ts) us) (ht : t.kind = .newline) :
    (∃ ys vs, us = ys ++ vs ∧ (∀ y ∈ ys, y.kind = .newline) ∧ Like f g ts vs) ∨
      Like f g ts us := by
  generalize htokens : t :: ts = tokens at h
  cases h with
  | nil => cases htokens
  | cons hkind =>
      obtain ⟨rfl, -⟩ := List.cons.inj htokens
      exact absurd ht hkind
  | @newlines _ u xs ys vs ws _ hu hxs hys hindent hrest =>
      obtain ⟨rfl, htail⟩ := List.cons.inj htokens
      cases xs with
      | nil =>
          obtain rfl : ts = vs := htail
          exact .inl ⟨u :: ys, ws, rfl, List.forall_mem_cons.2 ⟨hu, hys⟩, hrest⟩
      | cons x xs =>
          obtain rfl : ts = x :: (xs ++ vs) := htail
          obtain ⟨hx, hxs⟩ := List.forall_mem_cons.1 hxs
          exact .inr (.newlines hx hu hxs hys (.inr (hindent.resolve_left (by simp))) hrest)

end Like

/-! ### Expressions -/

theorem kind_ne_newline_of_is {t : Token} {kind : TokenKind} {text : String}
    (h : t.is kind text = true) (hkind : kind ≠ .newline) : t.kind ≠ .newline := by
  rwa [(Token.is_iff.1 h).1]

theorem isLayout_of_is {t : Token} {kind : TokenKind} {text : String} (h : t.is kind text = true)
    (hkind : kind.isLayout = false) : t.kind.isLayout = false := by
  rwa [(Token.is_iff.1 h).1]

theorem isLayout_of_unaryOp? {t : Token} {op : UnaryOp} (h : unaryOp? t = some op) :
    t.kind.isLayout = false := by
  obtain ⟨kind, text, line⟩ := t
  cases kind with
  | newline | indent | dedent => simp [unaryOp?, Token.is] at h
  | _ => rfl

theorem isLayout_of_binaryOp? {t : Token} {op : BinaryOp} (h : binaryOp? t = some op) :
    t.kind.isLayout = false := by
  obtain ⟨kind, text, line⟩ := t
  cases kind with
  | newline | indent | dedent => simp [binaryOp?] at h
  | _ => rfl

/-- Expressions do not go past the end of a line. -/
theorem Forms.isLayout_eq_false {r : Reader} {ph : Phrase} {ts : List Token} (h : Forms r ph ts) :
    ∀ t ∈ ts, t.kind.isLayout = false := by
  induction h with
  | number hkind | string hkind | fstring hkind | ident hkind | constant hkind =>
      simp [hkind]
  | ofAtom _ ih | ofPrimary _ ih | ofUnary _ ih => exact ih
  | group hopening _ hclosing ih =>
      have hfirst := isLayout_of_is hopening rfl
      have hlast := isLayout_of_is hclosing rfl
      simp only [List.forall_mem_cons, List.forall_mem_append]
      exact ⟨hfirst, ih, hlast, by simp⟩
  | list hopening _ ih | nextItems hopening _ ih =>
      exact List.forall_mem_cons.2 ⟨isLayout_of_is hopening rfl, ih⟩
  | unary hop _ ih => exact List.forall_mem_cons.2 ⟨isLayout_of_unaryOp? hop, ih⟩
  | attr _ hdot hname ih =>
      simp only [List.forall_mem_cons, List.forall_mem_append]
      exact ⟨ih, by simp [hdot], by simp [hname], by simp⟩
  | call _ hopening _ ihbase ihargs =>
      have hfirst := isLayout_of_is hopening rfl
      simp only [List.forall_mem_cons, List.forall_mem_append]
      exact ⟨ihbase, hfirst, ihargs⟩
  | index _ hopening _ hclosing ihbase ihposition =>
      have hfirst := isLayout_of_is hopening rfl
      have hlast := isLayout_of_is hclosing rfl
      simp only [List.forall_mem_cons, List.forall_mem_append]
      exact ⟨ihbase, hfirst, ihposition, hlast, by simp⟩
  | binary _ _ hop _ ihleft ihright =>
      simp only [List.forall_mem_cons, List.forall_mem_append]
      exact ⟨ihleft, isLayout_of_binaryOp? hop, ihright⟩
  | noArguments hclosing | endArguments hclosing | noItems hclosing | endItems hclosing =>
      exact List.forall_mem_singleton.2 (isLayout_of_is hclosing rfl)
  | argument _ _ ihe ihes | item _ _ ihe ihes => exact List.forall_mem_append.2 ⟨ihe, ihes⟩
  | nextArgument hcomma _ _ ihe ihes =>
      have hfirst := isLayout_of_is hcomma rfl
      simp only [List.forall_mem_cons, List.forall_mem_append]
      exact ⟨hfirst, ihe, ihes⟩

/-- Reading an f-string at another line gives the same but for the lines. -/
def Reader.Relabels (r : Reader) (f g : Nat → Nat) (text : String) : Prop :=
  ∀ l k, f l = g k → ∀ quasis expressions, r text l = .ok (quasis, expressions) →
    ∃ expressions', r text k = .ok (quasis, expressions') ∧
      Expr.mapLinesAll g expressions' = Expr.mapLinesAll f expressions

/-- Other tokens form the same phrase but for the lines. -/
def Phrase.FormedLike (r : Reader) (f g : Nat → Nat) (us : List Token) : Phrase → Prop
  | .expression m e => ∃ e', Forms r (.expression m e') us ∧ e'.mapLines g = e.mapLines f
  | .unary e => ∃ e', Forms r (.unary e') us ∧ e'.mapLines g = e.mapLines f
  | .primary e => ∃ e', Forms r (.primary e') us ∧ e'.mapLines g = e.mapLines f
  | .atom e => ∃ e', Forms r (.atom e') us ∧ e'.mapLines g = e.mapLines f
  | .arguments es =>
    ∃ es', Forms r (.arguments es') us ∧ Expr.mapLinesAll g es' = Expr.mapLinesAll f es
  | .moreArguments es =>
    ∃ es', Forms r (.moreArguments es') us ∧ Expr.mapLinesAll g es' = Expr.mapLinesAll f es
  | .items es => ∃ es', Forms r (.items es') us ∧ Expr.mapLinesAll g es' = Expr.mapLinesAll f es
  | .moreItems es =>
    ∃ es', Forms r (.moreItems es') us ∧ Expr.mapLinesAll g es' = Expr.mapLinesAll f es

/-- **Tokens that are alike form the same phrases, on other lines.** What f-strings
are read as is given by their text, up to lines. -/
theorem Forms.like {r : Reader} {f g : Nat → Nat} {ph : Phrase} {ts us : List Token}
    (h : Forms r ph ts) (hlike : Like f g ts us)
    (hread : ∀ t ∈ ts, t.kind = .fstring → r.Relabels f g t.text) : ph.FormedLike r f g us := by
  -- By induction on the derivation: the other tokens are cut up as the tokens are, which
  -- works since no line end is among them, and the same rule applies to the parts.
  induction h generalizing us with
  | number hkind hvalue =>
      obtain ⟨u, rfl, hsame, -⟩ := hlike.singleton_inv (by simp [hkind])
      have htext := hsame.text (by rw [hkind]; rfl)
      exact ⟨_, .number (hsame.kind.trans hkind) (by rwa [htext]), rfl⟩
  | string hkind =>
      obtain ⟨u, rfl, hsame, -⟩ := hlike.singleton_inv (by simp [hkind])
      have htext := hsame.text (by rw [hkind]; rfl)
      exact ⟨_, .string (hsame.kind.trans hkind), by rw [htext]; rfl⟩
  | fstring hkind hparts =>
      obtain ⟨u, rfl, hsame, hline⟩ := hlike.singleton_inv (by simp [hkind])
      have htext := hsame.text (by rw [hkind]; rfl)
      obtain ⟨expressions', hparts', hexpressions⟩ :=
        hread _ (List.mem_singleton_self _) hkind _ _ hline _ _ hparts
      rw [← htext] at hparts'
      exact ⟨_, .fstring (hsame.kind.trans hkind) hparts', by rw [Expr.mapLines, hexpressions]; rfl⟩
  | ident hkind =>
      obtain ⟨u, rfl, hsame, -⟩ := hlike.singleton_inv (by simp [hkind])
      have htext := hsame.text (by rw [hkind]; rfl)
      exact ⟨_, .ident (hsame.kind.trans hkind), by rw [htext]; rfl⟩
  | constant hkind hvalue =>
      obtain ⟨u, rfl, hsame, -⟩ := hlike.singleton_inv (by simp [hkind])
      have htext := hsame.text (by rw [hkind]; rfl)
      exact ⟨_, .constant (hsame.kind.trans hkind) (by rwa [htext]), rfl⟩
  | group hopening he hclosing ih =>
      simp only [List.forall_mem_cons, List.forall_mem_append] at hread
      obtain ⟨o, vs, rfl, ho, -, hrest⟩ := hlike.cons_inv (kind_ne_newline_of_is hopening (by simp))
      obtain ⟨inner, ws, rfl, hinner, hlast⟩ := hrest.append_inv he.isLayout_eq_false
      obtain ⟨c, rfl, hc, -⟩ := hlast.singleton_inv (kind_ne_newline_of_is hclosing (by simp))
      obtain ⟨e', hform, hlines⟩ := ih hinner hread.2.1
      exact ⟨_, .group (ho.is_of_is hopening rfl) hform (hc.is_of_is hclosing rfl),
        by simp only [Expr.mapLines, hlines]⟩
  | list hopening _ ih =>
      rw [List.forall_mem_cons] at hread
      obtain ⟨o, vs, rfl, ho, -, hrest⟩ := hlike.cons_inv (kind_ne_newline_of_is hopening (by simp))
      obtain ⟨es', hform, hlines⟩ := ih hrest hread.2
      exact ⟨_, .list (ho.is_of_is hopening rfl) hform, by simp only [Expr.mapLines, hlines]⟩
  | ofAtom _ ih =>
      obtain ⟨e', hform, hlines⟩ := ih hlike hread
      exact ⟨e', .ofAtom hform, hlines⟩
  | attr hbase hdot hname ih =>
      rw [List.forall_mem_append] at hread
      obtain ⟨vs, ws, rfl, hvs, hws⟩ := hlike.append_inv hbase.isLayout_eq_false
      obtain ⟨d, ws, rfl, hd, -, hrest⟩ := hws.cons_inv (by simp [hdot])
      obtain ⟨n, rfl, hn, -⟩ := hrest.singleton_inv (by simp [hname])
      obtain ⟨e', hform, hlines⟩ := ih hvs hread.1
      have htext := hn.text (by rw [hname]; rfl)
      exact ⟨_, .attr hform (hd.kind.trans hdot) (hn.kind.trans hname),
        by simp only [Expr.mapLines, hlines, htext]⟩
  | call hbase hopening _ ihbase ihargs =>
      simp only [List.forall_mem_cons, List.forall_mem_append] at hread
      obtain ⟨vs, ws, rfl, hvs, hws⟩ := hlike.append_inv hbase.isLayout_eq_false
      obtain ⟨o, ws, rfl, ho, -, hrest⟩ := hws.cons_inv (kind_ne_newline_of_is hopening (by simp))
      obtain ⟨e', hform, hlines⟩ := ihbase hvs hread.1
      obtain ⟨es', hargs, hargLines⟩ := ihargs hrest hread.2.2
      exact ⟨_, .call hform (ho.is_of_is hopening rfl) hargs,
        by simp only [Expr.mapLines, hlines, hargLines]⟩
  | index hbase hopening hposition hclosing ihbase ihposition =>
      simp only [List.forall_mem_cons, List.forall_mem_append] at hread
      obtain ⟨vs, ws, rfl, hvs, hws⟩ := hlike.append_inv hbase.isLayout_eq_false
      obtain ⟨o, ws, rfl, ho, -, hrest⟩ := hws.cons_inv (kind_ne_newline_of_is hopening (by simp))
      obtain ⟨inner, xs, rfl, hinner, hlast⟩ := hrest.append_inv hposition.isLayout_eq_false
      obtain ⟨c, rfl, hc, -⟩ := hlast.singleton_inv (kind_ne_newline_of_is hclosing (by simp))
      obtain ⟨e', hform, hlines⟩ := ihbase hvs hread.1
      obtain ⟨p', hformPosition, hpositionLines⟩ := ihposition hinner hread.2.2.1
      exact ⟨_, .index hform (ho.is_of_is hopening rfl) hformPosition (hc.is_of_is hclosing rfl),
        by simp only [Expr.mapLines, hlines, hpositionLines]⟩
  | ofPrimary _ ih =>
      obtain ⟨e', hform, hlines⟩ := ih hlike hread
      exact ⟨e', .ofPrimary hform, hlines⟩
  | unary hop _ ih =>
      rw [List.forall_mem_cons] at hread
      obtain ⟨u, vs, rfl, hsame, -, hrest⟩ := hlike.cons_inv
          (kind_ne_newline_of_isLayout (isLayout_of_unaryOp? hop))
      obtain ⟨e', hform, hlines⟩ := ih hrest hread.2
      exact ⟨_, .unary (hsame.unaryOp?_eq.trans hop) hform, by simp only [Expr.mapLines, hlines]⟩
  | ofUnary _ ih =>
      obtain ⟨e', hform, hlines⟩ := ih hlike hread
      exact ⟨e', .ofUnary hform, hlines⟩
  | binary hpower hleft hop _ ihleft ihright =>
      simp only [List.forall_mem_cons, List.forall_mem_append] at hread
      obtain ⟨vs, ws, rfl, hvs, hws⟩ := hlike.append_inv hleft.isLayout_eq_false
      obtain ⟨u, ws, rfl, hsame, hline, hrest⟩ := hws.cons_inv
          (kind_ne_newline_of_isLayout (isLayout_of_binaryOp? hop))
      obtain ⟨l', hform, hlines⟩ := ihleft hvs hread.1
      obtain ⟨r', hformRight, hrightLines⟩ := ihright hrest hread.2.2
      exact ⟨_, .binary hpower hform (hsame.binaryOp?_eq.trans hop) hformRight,
        by simp only [Expr.mapLines, hlines, hrightLines, hline]⟩
  | noArguments hclosing =>
      obtain ⟨c, rfl, hc, -⟩ := hlike.singleton_inv (kind_ne_newline_of_is hclosing (by simp))
      exact ⟨[], .noArguments (hc.is_of_is hclosing rfl), rfl⟩
  | argument he _ ihe ihes =>
      rw [List.forall_mem_append] at hread
      obtain ⟨vs, ws, rfl, hvs, hws⟩ := hlike.append_inv he.isLayout_eq_false
      obtain ⟨e', hform, hlines⟩ := ihe hvs hread.1
      obtain ⟨es', hforms, hmore⟩ := ihes hws hread.2
      exact ⟨_, .argument hform hforms, by simp only [Expr.mapLinesAll, hlines, hmore]⟩
  | endArguments hclosing =>
      obtain ⟨c, rfl, hc, -⟩ := hlike.singleton_inv (kind_ne_newline_of_is hclosing (by simp))
      exact ⟨[], .endArguments (hc.is_of_is hclosing rfl), rfl⟩
  | nextArgument hcomma he _ ihe ihes =>
      simp only [List.forall_mem_cons, List.forall_mem_append] at hread
      obtain ⟨c, vs, rfl, hc, -, hrest⟩ := hlike.cons_inv (kind_ne_newline_of_is hcomma (by simp))
      obtain ⟨vs, ws, rfl, hvs, hws⟩ := hrest.append_inv he.isLayout_eq_false
      obtain ⟨e', hform, hlines⟩ := ihe hvs hread.2.1
      obtain ⟨es', hforms, hmore⟩ := ihes hws hread.2.2
      exact ⟨_, .nextArgument (hc.is_of_is hcomma rfl) hform hforms,
        by simp only [Expr.mapLinesAll, hlines, hmore]⟩
  | noItems hclosing =>
      obtain ⟨c, rfl, hc, -⟩ := hlike.singleton_inv (kind_ne_newline_of_is hclosing (by simp))
      exact ⟨[], .noItems (hc.is_of_is hclosing rfl), rfl⟩
  | item he _ ihe ihes =>
      rw [List.forall_mem_append] at hread
      obtain ⟨vs, ws, rfl, hvs, hws⟩ := hlike.append_inv he.isLayout_eq_false
      obtain ⟨e', hform, hlines⟩ := ihe hvs hread.1
      obtain ⟨es', hforms, hmore⟩ := ihes hws hread.2
      exact ⟨_, .item hform hforms, by simp only [Expr.mapLinesAll, hlines, hmore]⟩
  | endItems hclosing =>
      obtain ⟨c, rfl, hc, -⟩ := hlike.singleton_inv (kind_ne_newline_of_is hclosing (by simp))
      exact ⟨[], .endItems (hc.is_of_is hclosing rfl), rfl⟩
  | nextItems hcomma _ ih =>
      rw [List.forall_mem_cons] at hread
      obtain ⟨c, vs, rfl, hc, -, hrest⟩ := hlike.cons_inv (kind_ne_newline_of_is hcomma (by simp))
      obtain ⟨es', hforms, hlines⟩ := ih hrest hread.2
      exact ⟨es', .nextItems (hc.is_of_is hcomma rfl) hforms, hlines⟩

end Grammar

/-! ### F-strings

An f-string is one token, whose placeholders are read from its text on the line of the
token. So what they are depends on the line only in the lines of their operations.
-/

theorem Lexeme.token?_line {l : Lexeme} {line : Nat} {t : Token} (h : l.token? line = some t) :
    t.line = line ∧ t.kind ≠ .newline := by
  cases l with
  | comment _ | blanks _ | newline => simp [token?] at h
  | quoted marker _ _ => cases marker <;> (obtain rfl := Option.some.inj h; simp)
  | word letters =>
      obtain rfl := Option.some.inj h
      simp only
      split <;> simp
  | number _ | operator _ | delimiter _ | dot | stray _ =>
      obtain rfl := Option.some.inj h
      simp

/-- A lexeme on another line becomes the same token there. -/
theorem Lexeme.token?_relabel (l : Lexeme) (line k : Nat) :
    l.token? k = (l.token? line).map fun t => { t with line := k } := by
  cases l with
  | quoted marker _ _ => cases marker <;> rfl
  | _ => rfl

theorem Token.flatten_cons {l : Lexeme} (h : l ≠ .newline) (line : Nat) (ls : List Lexeme) :
    flatten line (l :: ls) = (l.token? line).toList ++ flatten line ls := by
  rw [flatten]
  exact h

/-- A placeholder is read exactly if all of its tokens form an expression. -/
theorem FString.whole_eq_ok_iff {r : Grammar.Reader} {trailing : Failure} {ts : List Token}
    {e : Expr} : whole r trailing ts = .ok e ↔ Grammar.Forms r (.expression 0 e) ts := by
  constructor
  · intro h
    unfold whole at h
    split at h
    · rename_i e' hrun
      obtain rfl := Except.ok.inj h
      obtain ⟨used, rfl, hform, -⟩ := Grammar.expression_sound hrun
      rwa [List.append_nil]
    · cases h
    · cases h
  · intro h
    have hends : Grammar.Ends 0 [] := ⟨by simp [Grammar.EndsPrimary], by simp⟩
    have hrun : (Grammar.expression ⟨Grammar.endLine ts, r⟩ 0 (ts ++ [])).run = _ :=
      h.run_expression hends
    rw [List.append_nil] at hrun
    rw [whole, hrun]

/-- The text of an f-string at another line, if its placeholders can be read
there. -/
theorem FString.Body.read_relabels {f g : Nat → Nat} {l k : Nat}
    {expression expression' : List Char → Except Failure Expr}
    {b : Body} {quasis : List String} {es : List Expr}
    (h : b.read l expression = .ok (quasis, es))
    (hread : ∀ source ∈ b.sources, ∀ e, expression source = .ok e →
      ∃ e', expression' source = .ok e' ∧ e'.mapLines g = e.mapLines f) :
    ∃ es', b.read k expression' = .ok (quasis, es') ∧
      Expr.mapLinesAll g es' = Expr.mapLinesAll f es := by
  induction b generalizing quasis es with
  | text chars =>
      obtain ⟨rfl, rfl⟩ := Prod.mk.inj (Except.ok.inj h)
      exact ⟨[], rfl, rfl⟩
  | hole chars source rest ih =>
      cases hfirst : expression source with
      | error failure => simp [Body.read, hfirst, bind, Except.bind] at h
      | ok e =>
          cases hrest : rest.read l expression with
          | error failure => simp [Body.read, hfirst, hrest, bind, Except.bind] at h
          | ok parts =>
              obtain ⟨rfl, rfl⟩ : _ = quasis ∧ e :: parts.2 = es := by
                simpa [Body.read, hfirst, hrest, bind, Except.bind, pure, Except.pure] using h
              obtain ⟨e', hfirst', hlines⟩ := hread source List.mem_cons_self e hfirst
              obtain ⟨es', hrest', hmore⟩ :=
                ih hrest fun s hs => hread s (List.mem_cons_of_mem source hs)
              refine ⟨e' :: es', ?_, by rw [Expr.mapLinesAll, hlines, hmore, Expr.mapLinesAll]⟩
              simp [Body.read, hfirst', hrest', bind, Except.bind, pure, Except.pure]
  | broken fault => cases h

section

variable {f g : Nat → Nat} (hstep : ∀ l k, f l = g k → f (l + 1) = g (k + 1))
include hstep

/-- The tokens of an expression on two lines are alike. -/
theorem Token.like_flatten (ls : List Lexeme) {l k : Nat} (h : f l = g k) :
    Grammar.Like f g (flatten l ls) (flatten k ls) := by
  induction ls generalizing l k with
  | nil => exact .nil
  | cons lexeme ls ih =>
      by_cases hnewline : lexeme = .newline
      · subst hnewline
        exact ih (hstep l k h)
      · rw [flatten_cons hnewline, flatten_cons hnewline, lexeme.token?_relabel l k]
        cases htoken : lexeme.token? l with
        | none => exact ih h
        | some t =>
            obtain ⟨hline, hkind⟩ := Lexeme.token?_line htoken
            exact .cons hkind ⟨rfl, fun _ => rfl⟩ (by rw [hline]; exact h) (ih h)

namespace FString

/-- The expression in a placeholder at another line. -/
theorem embedded_relabels {r : Grammar.Reader} {source : List Char} {l k : Nat} {e : Expr}
    (h : embedded r l source = .ok e) (hline : f l = g k)
    (hread : ∀ t ∈ Token.ofExpression source l, t.kind = .fstring → r.Relabels f g t.text) :
    ∃ e', embedded r k source = .ok e' ∧ e'.mapLines g = e.mapLines f := by
  have hform := whole_eq_ok_iff.1 h
  obtain ⟨e', hform', hlines⟩ :=
    hform.like (Token.like_flatten hstep (Lexeme.scan source) hline) hread
  exact ⟨e', whole_eq_ok_iff.2 hform', hlines⟩

/-- An f-string at another line. -/
theorem read_relabels (content : List Char) {l k : Nat} (hline : f l = g k)
    {quasis : List String} {es : List Expr} (h : read content l = .ok (quasis, es)) :
    ∃ es', read content k = .ok (quasis, es') ∧ Expr.mapLinesAll g es' = Expr.mapLinesAll f es := by
  rw [read_eq] at h ⊢
  refine Body.read_relabels h fun source hsource e he => embedded_relabels hstep he hline ?_
  intro t ht hkind l' k' hline' quasis' es' hinner
  -- The text of an f-string in a placeholder is shorter than the text around it.
  have hshorter := Token.length_fstring_add_three_le ht hkind
  have houter := length_source_add_two_le hsource
  exact read_relabels t.text.toList hline' hinner
termination_by content.length
decreasing_by omega

end FString

/-- F-strings are read in the same way on every line. -/
theorem Program.fstringReader_relabels (text : String) :
    fstringReader.Relabels f g text :=
  fun _ _ hline _ _ h => FString.read_relabels hstep text.toList hline h

end

/-! ### Statements

The pieces of a statement one by one, and all of them together by induction on
`Takes`.
-/

namespace Grammar

section

variable {r : Reader} {f g : Nat → Nat} {ts us rest : List Token}

theorem MoreParts.isLayout_eq_false {parts : List String} (h : MoreParts parts ts) :
    ∀ t ∈ ts, t.kind.isLayout = false := by
  induction h with
  | done => simp
  | next hdot hpart _ ih =>
      exact List.forall_mem_cons.2
        ⟨by simp [hdot], List.forall_mem_cons.2 ⟨by simp [hpart], ih⟩⟩

/-- The parts of a module path are names, which have no lines. -/
theorem MoreParts.like {parts : List String} (h : MoreParts parts ts) (hlike : Like f g ts us) :
    MoreParts parts us := by
  induction h generalizing us with
  | done =>
      cases hlike
      exact .done
  | next hdot hpart _ ih =>
      obtain ⟨d, vs, rfl, hd, -, hrest⟩ := hlike.cons_inv (by simp [hdot])
      obtain ⟨p, vs, rfl, hp, -, hrest⟩ := hrest.cons_inv (by simp [hpart])
      rw [← hp.text (by rw [hpart]; rfl)]
      exact .next (hd.kind.trans hdot) (hp.kind.trans hpart) (ih hrest)

theorem MoreParameters.isLayout_eq_false {names : List String} (h : MoreParameters names ts) :
    ∀ t ∈ ts, t.kind.isLayout = false := by
  induction h with
  | done hclosing => exact List.forall_mem_singleton.2 (isLayout_of_is hclosing rfl)
  | next hcomma hname _ ih =>
      exact List.forall_mem_cons.2
        ⟨isLayout_of_is hcomma rfl, List.forall_mem_cons.2 ⟨by simp [hname], ih⟩⟩

theorem Parameters.isLayout_eq_false {names : List String} (h : Parameters names ts) :
    ∀ t ∈ ts, t.kind.isLayout = false := by
  cases h with
  | none hclosing => exact List.forall_mem_singleton.2 (isLayout_of_is hclosing rfl)
  | some hname hnames => exact List.forall_mem_cons.2 ⟨by simp [hname], hnames.isLayout_eq_false⟩

theorem MoreParameters.like {names : List String} (h : MoreParameters names ts)
    (hlike : Like f g ts us) : MoreParameters names us := by
  induction h generalizing us with
  | done hclosing =>
      obtain ⟨c, rfl, hc, -⟩ := hlike.singleton_inv (kind_ne_newline_of_is hclosing (by simp))
      exact .done (hc.is_of_is hclosing rfl)
  | next hcomma hname _ ih =>
      obtain ⟨c, vs, rfl, hc, -, hrest⟩ := hlike.cons_inv (kind_ne_newline_of_is hcomma (by simp))
      obtain ⟨n, vs, rfl, hn, -, hrest⟩ := hrest.cons_inv (by simp [hname])
      rw [← hn.text (by rw [hname]; rfl)]
      exact .next (hc.is_of_is hcomma rfl) (hn.kind.trans hname) (ih hrest)

theorem Parameters.like {names : List String} (h : Parameters names ts)
    (hlike : Like f g ts us) : Parameters names us := by
  cases h with
  | none hclosing =>
      obtain ⟨c, rfl, hc, -⟩ := hlike.singleton_inv (kind_ne_newline_of_is hclosing (by simp))
      exact .none (hc.is_of_is hclosing rfl)
  | some hname hnames =>
      obtain ⟨n, vs, rfl, hn, -, hrest⟩ := hlike.cons_inv (by simp [hname])
      rw [← hn.text (by rw [hname]; rfl)]
      exact .some (hn.kind.trans hname) (hnames.like hrest)

theorem isLayout_of_assignment? {t : Token} {op : Option AugmentedOp}
    (h : assignment? t = some op) : t.kind.isLayout = false := by
  obtain ⟨kind, text, line⟩ := t
  cases kind with
  | newline | indent | dedent => simp [assignment?] at h
  | _ => rfl

/-- A simple statement has no token of the layout in it. -/
theorem Simple.isLayout_eq_false {s : Stmt} (h : Simple r s ts) :
    ∀ t ∈ ts, t.kind.isLayout = false := by
  cases h with
  | bareReturn ht | breakLoop ht | continueLoop ht | pass ht =>
      exact List.forall_mem_singleton.2 (isLayout_of_is ht rfl)
  | returnValue ht he =>
      exact List.forall_mem_cons.2 ⟨isLayout_of_is ht rfl, he.isLayout_eq_false⟩
  | importModule ht hfirst hparts =>
      exact List.forall_mem_cons.2 ⟨isLayout_of_is ht rfl,
        List.forall_mem_cons.2 ⟨by simp [hfirst], hparts.isLayout_eq_false⟩⟩
  | expr he => exact he.isLayout_eq_false
  | assignment htarget hop hvalue =>
      exact List.forall_mem_append.2 ⟨htarget.isLayout_eq_false,
        List.forall_mem_cons.2 ⟨isLayout_of_assignment? hop, hvalue.isLayout_eq_false⟩⟩

/-- A reader of f-strings that gives the same at all lines, but for the lines. -/
def Reader.RelabelsAll (r : Reader) (f g : Nat → Nat) : Prop := ∀ text, r.Relabels f g text

theorem Forms.like_of_all {e : Expr} {m : Nat} (h : Forms r (.expression m e) ts)
    (hlike : Like f g ts us) (hread : r.RelabelsAll f g) :
    ∃ e', Forms r (.expression m e') us ∧ e'.mapLines g = e.mapLines f :=
  h.like hlike fun t _ _ => hread t.text

theorem isTarget_of_mapLines_eq {e e' : Expr} (h : e'.mapLines g = e.mapLines f)
    (he : e.isTarget = true) : e'.isTarget = true := by
  rwa [← Expr.isTarget_mapLines g, h, Expr.isTarget_mapLines]

/-- A simple statement is formed on another line. -/
theorem Simple.like {s : Stmt} (h : Simple r s ts) (hlike : Like f g ts us)
    (hread : r.RelabelsAll f g) : ∃ s', Simple r s' us ∧ s'.mapLines g = s.mapLines f := by
  cases h with
  | bareReturn ht =>
      obtain ⟨u, rfl, hu, -⟩ := hlike.singleton_inv (kind_ne_newline_of_is ht (by simp))
      exact ⟨_, .bareReturn (hu.is_of_is ht rfl), rfl⟩
  | returnValue ht he =>
      obtain ⟨u, vs, rfl, hu, -, hrest⟩ := hlike.cons_inv (kind_ne_newline_of_is ht (by simp))
      obtain ⟨e', hform, hlines⟩ := he.like_of_all hrest hread
      exact ⟨_, .returnValue (hu.is_of_is ht rfl) hform, by simp [Stmt.mapLines, hlines]⟩
  | importModule ht hfirst hparts =>
      obtain ⟨u, vs, rfl, hu, -, hrest⟩ := hlike.cons_inv (kind_ne_newline_of_is ht (by simp))
      obtain ⟨n, vs, rfl, hn, -, hrest⟩ := hrest.cons_inv (by simp [hfirst])
      have htext := hn.text (by rw [hfirst]; rfl)
      exact ⟨_, .importModule (hu.is_of_is ht rfl) (hn.kind.trans hfirst) (hparts.like hrest),
        by rw [htext]; rfl⟩
  | breakLoop ht =>
      obtain ⟨u, rfl, hu, -⟩ := hlike.singleton_inv (kind_ne_newline_of_is ht (by simp))
      exact ⟨_, .breakLoop (hu.is_of_is ht rfl), rfl⟩
  | continueLoop ht =>
      obtain ⟨u, rfl, hu, -⟩ := hlike.singleton_inv (kind_ne_newline_of_is ht (by simp))
      exact ⟨_, .continueLoop (hu.is_of_is ht rfl), rfl⟩
  | pass ht =>
      obtain ⟨u, rfl, hu, -⟩ := hlike.singleton_inv (kind_ne_newline_of_is ht (by simp))
      exact ⟨_, .pass (hu.is_of_is ht rfl), rfl⟩
  | expr he =>
      obtain ⟨e', hform, hlines⟩ := he.like_of_all hlike hread
      exact ⟨_, .expr hform, by rw [Stmt.mapLines, hlines, Stmt.mapLines]⟩
  | @assignment t op target value ts us htarget hop hvalue hisTarget =>
      obtain ⟨vs, ws, rfl, hvs, hws⟩ := hlike.append_inv htarget.isLayout_eq_false
      obtain ⟨u, ws, rfl, hu, -, hrest⟩ := hws.cons_inv
          (kind_ne_newline_of_isLayout (isLayout_of_assignment? hop))
      obtain ⟨target', hform, hlines⟩ := htarget.like_of_all hvs hread
      obtain ⟨value', hformValue, hvalueLines⟩ := hvalue.like_of_all hrest hread
      refine ⟨_, .assignment hform (hu.assignment?_eq.trans hop) hformValue
        (isTarget_of_mapLines_eq hlines hisTarget), ?_⟩
      cases op <;> simp [assigned, Stmt.mapLines, hlines, hvalueLines]

/-- Where one line ends, so does the other. -/
theorem EndsLine.like (h : EndsLine ts) (hlike : Like f g ts us) : EndsLine us := by
  intro u hu
  obtain ⟨t, ht, hsame⟩ := hlike.head u hu
  rw [hsame.kind]
  exact h t ht

/-- A keyword that does not come next does not come next among alike tokens. -/
theorem Like.is_keyword_eq_false {text : String} (hlike : Like f g ts us)
    (h : ∀ t ∈ ts.head?, t.is .keyword text = false) :
    ∀ u ∈ us.head?, u.is .keyword text = false := by
  intro u hu
  obtain ⟨t, ht, hsame⟩ := hlike.head u hu
  rw [hsame.is_eq .keyword text rfl]
  exact h t ht

/-- A bare `return` is one on every line. -/
theorem ne_bareReturn_of_mapLines_eq {s s' : Stmt} (h : s'.mapLines g = s.mapLines f)
    (hs : s ≠ .returnValue none) : s' ≠ .returnValue none := by
  rintro rfl
  cases s with
  | returnValue value =>
      cases value with
      | none => exact hs rfl
      | some e => simp [Stmt.mapLines] at h
  | _ => simp [Stmt.mapLines] at h

/-- Line ends before a body are passed over. -/
theorem Takes.newlines {ss : List Stmt} {ys : List Token} (h : Takes r (.body ss) ts rest)
    (hys : ∀ y ∈ ys, y.kind = .newline) : Takes r (.body ss) (ys ++ ts) rest := by
  induction ys with
  | nil => exact h
  | cons y ys ih =>
      obtain ⟨hy, hys⟩ := List.forall_mem_cons.1 hys
      exact .bodyNewline hy (ih hys)

/-- The same piece but for the lines is taken from other tokens. -/
def Piece.TakenLike (r : Reader) (f g : Nat → Nat) (us rest : List Token) : Piece → Prop
  | .statement s => ∃ s', Takes r (.statement s') us rest ∧ s'.mapLines g = s.mapLines f
  | .block ss =>
    ∃ ss', Takes r (.block ss') us rest ∧ Stmt.mapBlockLines g ss' = Stmt.mapBlockLines f ss
  | .body ss =>
    ∃ ss', Takes r (.body ss') us rest ∧ Stmt.mapBlockLines g ss' = Stmt.mapBlockLines f ss
  | .alternate a =>
    ∃ a', Takes r (.alternate a') us rest ∧ Stmt.mapAlternateLines g a' = Stmt.mapAlternateLines f a
  | .orelse ss =>
    ∃ ss', Takes r (.orelse ss') us rest ∧ Stmt.mapBlockLines g ss' = Stmt.mapBlockLines f ss

/-- **Statements are taken alike from tokens that are alike.** -/
theorem Takes.like {piece : Piece} (h : Takes r piece ts rest) (hlike : Like f g ts us)
    (hread : r.RelabelsAll f g) :
    ∃ rest', Like f g rest rest' ∧ piece.TakenLike r f g us rest' := by
  -- What a piece leaves over is alike again, and this is what the next piece starts from.
  induction h generalizing us with
  | line hsimple hends =>
      obtain ⟨vs, ws, rfl, hvs, hws⟩ := hlike.append_inv hsimple.isLayout_eq_false
      obtain ⟨s', hform, hlines⟩ := hsimple.like hvs hread
      exact ⟨ws, hws, s', .line hform (hends.like hws), hlines⟩
  | semicolon hsimple hvalue ht =>
      obtain ⟨vs, ws, rfl, hvs, hws⟩ := hlike.append_inv hsimple.isLayout_eq_false
      obtain ⟨u, ws, rfl, hu, -, hrest⟩ := hws.cons_inv (kind_ne_newline_of_is ht (by simp))
      obtain ⟨s', hform, hlines⟩ := hsimple.like hvs hread
      exact ⟨ws, hrest, s',
        .semicolon hform (ne_bareReturn_of_mapLines_eq hlines hvalue) (hu.is_of_is ht rfl), hlines⟩
  | functionDef ht hname hopening hnames _ ih =>
      obtain ⟨u, vs, rfl, hu, -, hrest⟩ := hlike.cons_inv (kind_ne_newline_of_is ht (by simp))
      obtain ⟨n, vs, rfl, hn, -, hrest⟩ := hrest.cons_inv (by simp [hname])
      obtain ⟨o, vs, rfl, ho, -, hrest⟩ := hrest.cons_inv (kind_ne_newline_of_is hopening (by simp))
      obtain ⟨vs, ws, rfl, hvs, hws⟩ := hrest.append_inv hnames.isLayout_eq_false
      obtain ⟨rest', hrest', ss', hbody, hlines⟩ := ih hws
      have htext := hn.text (by rw [hname]; rfl)
      exact ⟨rest', hrest', _, .functionDef (hu.is_of_is ht rfl) (hn.kind.trans hname)
        (ho.is_of_is hopening rfl) (hnames.like hvs) hbody,
        by rw [Stmt.mapLines, hlines, htext, Stmt.mapLines]⟩
  | classDef ht hname _ ih =>
      obtain ⟨u, vs, rfl, hu, -, hrest⟩ := hlike.cons_inv (kind_ne_newline_of_is ht (by simp))
      obtain ⟨n, vs, rfl, hn, -, hrest⟩ := hrest.cons_inv (by simp [hname])
      obtain ⟨rest', hrest', ss', hbody, hlines⟩ := ih hrest
      have htext := hn.text (by rw [hname]; rfl)
      exact ⟨rest', hrest', _, .classDef (hu.is_of_is ht rfl) (hn.kind.trans hname) hbody,
        by rw [Stmt.mapLines, hlines, htext, Stmt.mapLines]⟩
  | conditional ht hcondition _ _ ihbody ihmore =>
      obtain ⟨u, vs, rfl, hu, -, hrest⟩ := hlike.cons_inv (kind_ne_newline_of_is ht (by simp))
      obtain ⟨vs, ws, rfl, hvs, hws⟩ := hrest.append_inv hcondition.isLayout_eq_false
      obtain ⟨e', hform, hlines⟩ := hcondition.like_of_all hvs hread
      obtain ⟨rest', hrest', ss', hbody, hbodyLines⟩ := ihbody hws
      obtain ⟨rest'', hrest'', a', hmore, hmoreLines⟩ := ihmore hrest'
      exact ⟨rest'', hrest'', _, .conditional (hu.is_of_is ht rfl) hform hbody hmore,
        by rw [Stmt.mapLines, hlines, hbodyLines, hmoreLines, Stmt.mapLines]⟩
  | whileLoop ht hcondition _ _ ihbody ihorelse =>
      obtain ⟨u, vs, rfl, hu, -, hrest⟩ := hlike.cons_inv (kind_ne_newline_of_is ht (by simp))
      obtain ⟨vs, ws, rfl, hvs, hws⟩ := hrest.append_inv hcondition.isLayout_eq_false
      obtain ⟨e', hform, hlines⟩ := hcondition.like_of_all hvs hread
      obtain ⟨rest', hrest', ss', hbody, hbodyLines⟩ := ihbody hws
      obtain ⟨rest'', hrest'', orelse', horelse, horelseLines⟩ := ihorelse hrest'
      exact ⟨rest'', hrest'', _, .whileLoop (hu.is_of_is ht rfl) hform hbody horelse,
        by rw [Stmt.mapLines, hlines, hbodyLines, horelseLines, Stmt.mapLines]⟩
  | forLoop ht htarget hin hiter _ _ ihbody ihorelse =>
      obtain ⟨u, vs, rfl, hu, -, hrest⟩ := hlike.cons_inv (kind_ne_newline_of_is ht (by simp))
      obtain ⟨vs, ws, rfl, hvs, hws⟩ := hrest.append_inv htarget.isLayout_eq_false
      obtain ⟨i, ws, rfl, hi, -, hrest⟩ := hws.cons_inv (kind_ne_newline_of_is hin (by simp))
      obtain ⟨xs, ys, rfl, hxs, hys⟩ := hrest.append_inv hiter.isLayout_eq_false
      obtain ⟨target', hform, hlines⟩ := htarget.like hvs fun t _ _ => hread t.text
      obtain ⟨iter', hformIter, hiterLines⟩ := hiter.like_of_all hxs hread
      obtain ⟨rest', hrest', ss', hbody, hbodyLines⟩ := ihbody hys
      obtain ⟨rest'', hrest'', orelse', horelse, horelseLines⟩ := ihorelse hrest'
      exact ⟨rest'', hrest'', _,
        .forLoop (hu.is_of_is ht rfl) hform (hi.is_of_is hin rfl) hformIter hbody horelse,
        by rw [Stmt.mapLines, hlines, hiterLines, hbodyLines, horelseLines, Stmt.mapLines]⟩
  | elseIf ht hcondition _ _ ihbody ihmore =>
      obtain ⟨u, vs, rfl, hu, -, hrest⟩ := hlike.cons_inv (kind_ne_newline_of_is ht (by simp))
      obtain ⟨vs, ws, rfl, hvs, hws⟩ := hrest.append_inv hcondition.isLayout_eq_false
      obtain ⟨e', hform, hlines⟩ := hcondition.like_of_all hvs hread
      obtain ⟨rest', hrest', ss', hbody, hbodyLines⟩ := ihbody hws
      obtain ⟨rest'', hrest'', a', hmore, hmoreLines⟩ := ihmore hrest'
      exact ⟨rest'', hrest'', _, .elseIf (hu.is_of_is ht rfl) hform hbody hmore,
        by rw [Stmt.mapAlternateLines, hlines, hbodyLines, hmoreLines, Stmt.mapAlternateLines]⟩
  | otherwise ht _ ih =>
      obtain ⟨u, vs, rfl, hu, -, hrest⟩ := hlike.cons_inv (kind_ne_newline_of_is ht (by simp))
      obtain ⟨rest', hrest', ss', hbody, hlines⟩ := ih hrest
      exact ⟨rest', hrest', _, .otherwise (hu.is_of_is ht rfl) hbody,
        by rw [Stmt.mapAlternateLines, hlines, Stmt.mapAlternateLines]⟩
  | noAlternate hno =>
      refine ⟨us, hlike, .none, .noAlternate fun u hu => ⟨?_, ?_⟩, rfl⟩
      · exact hlike.is_keyword_eq_false (fun t ht => (hno t ht).1) u hu
      · exact hlike.is_keyword_eq_false (fun t ht => (hno t ht).2) u hu
  | loopElse ht _ ih =>
      obtain ⟨u, vs, rfl, hu, -, hrest⟩ := hlike.cons_inv (kind_ne_newline_of_is ht (by simp))
      obtain ⟨rest', hrest', ss', hbody, hlines⟩ := ih hrest
      exact ⟨rest', hrest', ss', .loopElse (hu.is_of_is ht rfl) hbody, hlines⟩
  | noLoopElse hno =>
      exact ⟨us, hlike, [], .noLoopElse (hlike.is_keyword_eq_false hno), rfl⟩
  | block hcolon hnewline hindent _ ih =>
      obtain ⟨c, vs, rfl, hc, -, hrest⟩ := hlike.cons_inv (kind_ne_newline_of_is hcolon (by simp))
      obtain ⟨n, i, vs, rfl, hn, hi, hrest⟩ := hrest.block_inv hnewline hindent
      obtain ⟨rest', hrest', ss', hbody, hlines⟩ := ih hrest
      exact ⟨rest', hrest', ss', .block (hc.is_of_is hcolon rfl) hn hi hbody, hlines⟩
  | bodyEnd =>
      cases hlike
      exact ⟨[], .nil, [], .bodyEnd, rfl⟩
  | dedent ht =>
      obtain ⟨u, vs, rfl, hu, -, hrest⟩ := hlike.cons_inv (by simp [ht])
      exact ⟨vs, hrest, [], .dedent (hu.kind.trans ht), rfl⟩
  | bodyNewline ht _ ih =>
      rcases hlike.newline_inv ht with ⟨ys, vs, rfl, hys, hrest⟩ | hrest
      · obtain ⟨rest', hrest', ss', hbody, hlines⟩ := ih hrest
        exact ⟨rest', hrest', ss', hbody.newlines hys, hlines⟩
      · exact ih hrest
  | bodyStatement _ _ ihs ih =>
      obtain ⟨rest', hrest', s', hs, hlines⟩ := ihs hlike
      obtain ⟨rest'', hrest'', ss', hbody, hbodyLines⟩ := ih hrest'
      exact ⟨rest'', hrest'', _, .bodyStatement hs hbody,
        by rw [Stmt.mapBlockLines, hlines, hbodyLines, Stmt.mapBlockLines]⟩

/-- Line ends before a program are passed over. -/
theorem FormsProgram.newlines {ss : List Stmt} {ys : List Token} (h : FormsProgram r ss ts)
    (hys : ∀ y ∈ ys, y.kind = .newline) : FormsProgram r ss (ys ++ ts) := by
  induction ys with
  | nil => exact h
  | cons y ys ih =>
      obtain ⟨hy, hys⟩ := List.forall_mem_cons.1 hys
      exact .newline hy (ih hys)

/-- Alike tokens form the same program but for its lines. -/
theorem FormsProgram.like {ss : List Stmt} (h : FormsProgram r ss ts) (hlike : Like f g ts us)
    (hread : r.RelabelsAll f g) :
    ∃ ss', FormsProgram r ss' us ∧ Stmt.mapBlockLines g ss' = Stmt.mapBlockLines f ss := by
  induction h generalizing us with
  | done =>
      cases hlike
      exact ⟨[], .done, rfl⟩
  | dedent ht _ ih =>
      obtain ⟨u, vs, rfl, hu, -, hrest⟩ := hlike.cons_inv (by simp [ht])
      obtain ⟨ss', hprogram, hlines⟩ := ih hrest
      exact ⟨ss', .dedent (hu.kind.trans ht) hprogram, hlines⟩
  | newline ht _ ih =>
      rcases hlike.newline_inv ht with ⟨ys, vs, rfl, hys, hrest⟩ | hrest
      · obtain ⟨ss', hprogram, hlines⟩ := ih hrest
        exact ⟨ss', hprogram.newlines hys, hlines⟩
      · exact ih hrest
  | statement hs _ ih =>
      obtain ⟨rest', hrest', s', hs', hlines⟩ := hs.like hlike hread
      obtain ⟨ss', hprogram, hmore⟩ := ih hrest'
      exact ⟨_, .statement hs' hprogram,
        by rw [Stmt.mapBlockLines, hlines, hmore, Stmt.mapBlockLines]⟩

end

end Grammar

/-- Alike tokens are read as the same program but for its lines, if one of them
is read as a program at all. -/
theorem Program.ofTokens_like {f g : Nat → Nat}
    (hstep : ∀ l k, f l = g k → f (l + 1) = g (k + 1)) {ts us : List Token} {p : Program}
    (hlike : Grammar.Like f g ts us) (h : ofTokens ts = .ok p) :
    ∃ q, ofTokens us = .ok q ∧ q.mapLines g = p.mapLines f := by
  obtain ⟨ss, hprogram, hlines⟩ :=
    (ofTokens_eq_ok_iff.1 h).like hlike (fstringReader_relabels hstep)
  exact ⟨⟨ss⟩, ofTokens_eq_ok_iff.2 hprogram, congrArg Program.mk hlines⟩

end Offside
