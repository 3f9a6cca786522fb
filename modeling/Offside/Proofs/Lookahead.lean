import Offside.Ast.Equality
import Offside.Proofs.Progress

/-!
# Offside.Proofs.Lookahead

Reading looks **one token ahead**. Main statement: `Cursor.looks_one_token_ahead`,
about two runs from the same place in two rows of tokens.

A piece of a program is taken from its own tokens, and what follows them counts by
its first token only. So the rest can be exchanged for another one with the same
first token (`Takes.isLocal`). The grammar as a relation does not know the line that
is reported for the end of the tokens, which differs between the two runs, so no
successful result can depend on it.
-/

namespace Offside.Grammar

variable {r : Reader} {ts us vs rest : List Token}

/-! ### The rest exchanged -/

theorem head?_append_congr {rest' : List Token} (h : rest'.head? = rest.head?) (used : List Token) :
    (used ++ rest').head? = (used ++ rest).head? := by
  rw [List.head?_append, List.head?_append, h]

/-- A piece is taken in the same way before any other rest that starts with the same
token, or is empty as well. -/
def IsLocal (r : Reader) (piece : Piece) (ts rest : List Token) : Prop :=
  ∃ used, ts = used ++ rest ∧
    ∀ rest' : List Token, rest'.head? = rest.head? → Takes r piece (used ++ rest') rest'

/-- Two pieces in a row. The first one sees the start of the second one, or, if that
takes no token, the start of the rest. -/
theorem IsLocal.followedBy {first second : Piece} (h : IsLocal r first us vs)
    (hnext : IsLocal r second vs rest) :
    ∃ used, us = used ++ rest ∧ ∀ rest' : List Token, rest'.head? = rest.head? →
      ∃ vs', Takes r first (used ++ rest') vs' ∧ Takes r second vs' rest' := by
  obtain ⟨before, rfl, hfirst⟩ := h
  obtain ⟨after, rfl, hsecond⟩ := hnext
  refine ⟨before ++ after, (List.append_assoc before after rest).symm, fun rest' hhead => ?_⟩
  refine ⟨after ++ rest', ?_, hsecond rest' hhead⟩
  rw [List.append_assoc]
  exact hfirst (after ++ rest') (head?_append_congr hhead after)

theorem Takes.isLocal {piece : Piece} (h : Takes r piece ts rest) : IsLocal r piece ts rest := by
  induction h with
  | @line s ts rest hsimple hends =>
      refine ⟨ts, rfl, fun rest' hhead => .line hsimple ?_⟩
      rwa [EndsLine, hhead]
  | @semicolon s t ts rest hsimple hvalue ht =>
      refine ⟨ts ++ [t], by simp, fun rest' _ => ?_⟩
      rw [List.append_assoc]
      exact .semicolon hsimple hvalue ht
  | @functionDef t name opening names body ts us rest ht hname hopening hnames _ ih =>
      obtain ⟨used, rfl, hbody⟩ := ih
      refine ⟨t :: name :: opening :: (ts ++ used), by simp, fun rest' hhead => ?_⟩
      simp only [List.cons_append, List.append_assoc]
      exact .functionDef ht hname hopening hnames (hbody rest' hhead)
  | @classDef t name body ts rest ht hname _ ih =>
      obtain ⟨used, rfl, hbody⟩ := ih
      exact ⟨t :: name :: used, rfl, fun rest' hhead => .classDef ht hname (hbody rest' hhead)⟩
  | @conditional t condition body alternate ts us vs rest ht hcondition _ _ ihbody ihmore =>
      obtain ⟨used, rfl, hboth⟩ := ihbody.followedBy ihmore
      refine ⟨t :: (ts ++ used), by simp, fun rest' hhead => ?_⟩
      obtain ⟨vs', hbody, hmore⟩ := hboth rest' hhead
      simp only [List.cons_append, List.append_assoc]
      exact .conditional ht hcondition hbody hmore
  | @whileLoop t condition body orelse ts us vs rest ht hcondition _ _ ihbody ihorelse =>
      obtain ⟨used, rfl, hboth⟩ := ihbody.followedBy ihorelse
      refine ⟨t :: (ts ++ used), by simp, fun rest' hhead => ?_⟩
      obtain ⟨vs', hbody, horelse⟩ := hboth rest' hhead
      simp only [List.cons_append, List.append_assoc]
      exact .whileLoop ht hcondition hbody horelse
  | @forLoop t isIn target iter body orelse ts us vs ws rest ht htarget hin hiter _ _ ihbody
      ihorelse =>
      obtain ⟨used, rfl, hboth⟩ := ihbody.followedBy ihorelse
      refine ⟨t :: (ts ++ isIn :: (us ++ used)), by simp, fun rest' hhead => ?_⟩
      obtain ⟨ws', hbody, horelse⟩ := hboth rest' hhead
      simp only [List.cons_append, List.append_assoc]
      exact .forLoop ht htarget hin hiter hbody horelse
  | @elseIf t condition body alternate ts us vs rest ht hcondition _ _ ihbody ihmore =>
      obtain ⟨used, rfl, hboth⟩ := ihbody.followedBy ihmore
      refine ⟨t :: (ts ++ used), by simp, fun rest' hhead => ?_⟩
      obtain ⟨vs', hbody, hmore⟩ := hboth rest' hhead
      simp only [List.cons_append, List.append_assoc]
      exact .elseIf ht hcondition hbody hmore
  | @otherwise t body ts rest ht _ ih =>
      obtain ⟨used, rfl, hbody⟩ := ih
      exact ⟨t :: used, rfl, fun rest' hhead => .otherwise ht (hbody rest' hhead)⟩
  | noAlternate hno =>
      refine ⟨[], rfl, fun rest' hhead => ?_⟩
      rw [← hhead] at hno
      exact .noAlternate hno
  | @loopElse t body ts rest ht _ ih =>
      obtain ⟨used, rfl, hbody⟩ := ih
      exact ⟨t :: used, rfl, fun rest' hhead => .loopElse ht (hbody rest' hhead)⟩
  | noLoopElse hno =>
      refine ⟨[], rfl, fun rest' hhead => ?_⟩
      rw [← hhead] at hno
      exact .noLoopElse hno
  | @block colon newline indent ss ts rest hcolon hnewline hindent _ ih =>
      obtain ⟨used, rfl, hbody⟩ := ih
      exact ⟨colon :: newline :: indent :: used, rfl, fun rest' hhead =>
        .block hcolon hnewline hindent (hbody rest' hhead)⟩
  | bodyEnd =>
      -- A block that ends with the tokens needs the other tokens to end there too.
      refine ⟨[], rfl, fun rest' hhead => ?_⟩
      obtain rfl := List.head?_eq_none_iff.1 hhead
      exact .bodyEnd
  | @dedent t rest ht => exact ⟨[t], rfl, fun rest' _ => .dedent ht⟩
  | @bodyNewline t ss ts rest ht _ ih =>
      obtain ⟨used, rfl, hbody⟩ := ih
      exact ⟨t :: used, rfl, fun rest' hhead => .bodyNewline ht (hbody rest' hhead)⟩
  | bodyStatement _ _ ihs ihbody =>
      obtain ⟨used, rfl, hboth⟩ := ihs.followedBy ihbody
      refine ⟨used, rfl, fun rest' hhead => ?_⟩
      obtain ⟨us', hs, hbody⟩ := hboth rest' hhead
      exact .bodyStatement hs hbody

/-! ### Reading with another rest -/

/-- A reader that succeeds gives the same result before any other rest that starts with
the same token or is empty as well, whatever line is reported for the end. -/
def LooksOneAhead {α : Type} (read : (ctx : Context) → (ts : List Token) → Step 1 ts α) : Prop :=
  ∀ (ctx : Context) (ts : List Token) (a : α) (rest : List Token),
    (read ctx ts).run = (.ok a, rest) →
    ∃ used, ts = used ++ rest ∧ ∀ (endLine : Nat) (rest' : List Token),
      rest'.head? = rest.head? →
      (read ⟨endLine, ctx.fstring⟩ (used ++ rest')).run = (.ok a, rest')

theorem statement_looksOneAhead : LooksOneAhead statement := by
  intro ctx ts s rest h
  have htaken := statement_sound h
  cases s with
  | none =>
      obtain ⟨t, rfl, hnewline⟩ := htaken
      exact ⟨[t], rfl, fun _ rest' _ => run_statement_newline hnewline rest'⟩
  | some s =>
      obtain ⟨used, hts, hlocal⟩ := Takes.isLocal htaken
      exact ⟨used, hts, fun endLine rest' hhead =>
        @Takes.reads ⟨endLine, ctx.fstring⟩ _ _ _ (hlocal rest' hhead)⟩

theorem expression_looksOneAhead (m : Nat) :
    LooksOneAhead fun ctx ts => expression ctx m ts := by
  intro ctx ts e rest h
  obtain ⟨used, hts, hform, hends⟩ := expression_sound h
  refine ⟨used, hts, fun endLine rest' hhead => ?_⟩
  have hends' : Ends m rest' := by
    constructor
    · rw [EndsPrimary, hhead]
      exact hends.primary
    · rw [hhead]
      exact hends.power
  exact @Forms.run_expression ⟨endLine, ctx.fstring⟩ _ _ _ _ hform hends'

/-! ### Two rows of tokens -/

/-- Two rows have the same token at every place up to `j` and at `j` itself, where a row
that is over agrees with one that is over as well. -/
def AgreeTo (j : Nat) (ts ts' : List Token) : Prop := ∀ k ≤ j, ts'[k]? = ts[k]?

theorem AgreeTo.take_eq {j : Nat} {ts ts' : List Token} (h : AgreeTo j ts ts') :
    ts'.take j = ts.take j := by
  refine List.ext_getElem? fun k => ?_
  by_cases hk : k < j
  · rw [List.getElem?_take_of_lt hk, List.getElem?_take_of_lt hk, h k (Nat.le_of_lt hk)]
  · rw [List.getElem?_take_eq_none (Nat.le_of_not_lt hk),
      List.getElem?_take_eq_none (Nat.le_of_not_lt hk)]

/-- Where two rows agree up to the place after `used`, the tokens `used` stand in both of
them, with the same token after them. -/
theorem AgreeTo.drop_eq {i : Nat} {ts ts' used rest : List Token} (hi : i ≤ ts.length)
    (hts : ts.drop i = used ++ rest) (h : AgreeTo (i + used.length) ts ts') :
    ts'.drop i = used ++ ts'.drop (i + used.length) ∧
      (ts'.drop (i + used.length)).head? = rest.head? := by
  have hrest : ts.drop (i + used.length) = rest := by
    rw [← List.drop_drop, hts, List.drop_left]
  constructor
  · have hused : (ts.take (i + used.length)).drop i = used := by
      rw [List.drop_take, hts, Nat.add_sub_cancel_left, List.take_left]
    have hlength : i ≤ (ts'.take (i + used.length)).length := by
      rw [h.take_eq, List.length_take]
      have hsum := congrArg List.length hts
      rw [List.length_drop, List.length_append] at hsum
      omega
    calc ts'.drop i
        = (ts'.take (i + used.length) ++ ts'.drop (i + used.length)).drop i := by
          rw [List.take_append_drop]
      _ = (ts'.take (i + used.length)).drop i ++ ts'.drop (i + used.length) :=
          List.drop_append_of_le_length hlength
      _ = used ++ ts'.drop (i + used.length) := by rw [h.take_eq, hused]
  · rw [List.head?_drop, h _ (Nat.le_refl _), ← List.head?_drop, hrest]

namespace Cursor

/-- The cursor past the first `i` tokens. -/
def past (ts : List Token) (i : Nat) : Cursor := ⟨ts.drop i, Grammar.endLine ts⟩

/-- A reader that looks one token ahead does so from any place: what it reads there, it
reads from the same place in any tokens that agree up to the place where it stops. -/
theorem take_of_agreeTo {α : Type}
    {read : (ctx : Context) → (ts : List Token) → Step 1 ts α} (hread : LooksOneAhead read)
    {ts ts' : List Token} {i : Nat} {a : α} {after : Cursor}
    (h : (past ts i).take (read (past ts i).context (past ts i).rest) = (.ok a, after))
    (hagree : AgreeTo (after.position ts) ts ts') :
    (past ts' i).take (read (past ts' i).context (past ts' i).rest) =
      (.ok a, past ts' (after.position ts)) := by
  obtain ⟨hresult, hafter⟩ := Prod.mk.inj h
  have hrest : (read (past ts i).context (past ts i).rest).rest = after.rest :=
    congrArg Cursor.rest hafter
  have hprogress := (read (past ts i).context (past ts i).rest).progress a hresult
  obtain ⟨used, hdrop, hexchange⟩ := hread _ _ a after.rest (Prod.ext hresult hrest)
  -- A success takes a token, so the place is not behind the end of the tokens.
  have hplace : (past ts i).rest.length = ts.length - i := List.length_drop
  have hlength := congrArg List.length hdrop
  rw [List.length_append] at hlength
  rw [hrest] at hprogress
  have hposition : after.position ts = i + used.length := by
    rw [position]
    omega
  rw [hposition] at hagree ⊢
  obtain ⟨hdrop', hhead⟩ := hagree.drop_eq (by omega) hdrop
  have hrun := hexchange (Grammar.endLine ts') (ts'.drop (i + used.length)) hhead
  rw [← hdrop'] at hrun
  obtain ⟨hresult', hrest'⟩ := Prod.mk.inj hrun
  exact Prod.ext hresult' (congrArg (Cursor.mk · (Grammar.endLine ts')) hrest')

/-- **One token of lookahead.** A statement or an expression that is read from the place
`i` of some tokens, up to a place `j`, is read from the place `i` of any other tokens that
agree with them up to `j`, the token at `j` included. The results are the same, and both
cursors stop at `j`. -/
theorem looks_one_token_ahead (ts : List Token) (i : Nat) :
    (∀ (s : Option Stmt) (after : Cursor), (past ts i).statement = (.ok s, after) →
      ∀ ts' : List Token, AgreeTo (after.position ts) ts ts' →
        (past ts' i).statement = (.ok s, past ts' (after.position ts))) ∧
    (∀ (m : Nat) (e : Expr) (after : Cursor), (past ts i).expression m = (.ok e, after) →
      ∀ ts' : List Token, AgreeTo (after.position ts) ts ts' →
        (past ts' i).expression m = (.ok e, past ts' (after.position ts))) :=
  ⟨fun _ _ h _ hagree => take_of_agreeTo statement_looksOneAhead h hagree,
    fun m _ _ h _ hagree => take_of_agreeTo (expression_looksOneAhead m) h hagree⟩

/-- A conditional between two statements. -/
def beforeAssignment : List Token := Token.ofProgram "x\nif a:\n    b\nc = 1\n".toList

/-- The same tokens up to one after the conditional, and then no statement. -/
def beforeDisorder : List Token := Token.ofProgram "x\nif a:\n    b\nc )\n\n".toList

theorem looks_one_token_ahead_conditional :
    (past beforeAssignment 2).statement =
      (.ok (some (.ifElse (.ident "a") [.expr (.ident "b")] .none)), past beforeAssignment 10) ∧
    (past beforeAssignment 3).expression 0 = (.ok (.ident "a"), past beforeAssignment 4) ∧
    AgreeTo 10 beforeAssignment beforeDisorder ∧ ¬ AgreeTo 11 beforeAssignment beforeDisorder ∧
    (past beforeDisorder 2).statement =
      (.ok (some (.ifElse (.ident "a") [.expr (.ident "b")] .none)), past beforeDisorder 10) ∧
    (past beforeDisorder 3).expression 0 = (.ok (.ident "a"), past beforeDisorder 4) := by
  have hstatement : (past beforeAssignment 2).statement =
      (.ok (some (.ifElse (.ident "a") [.expr (.ident "b")] .none)), past beforeAssignment 10) :=
    Prod.ext (eq_ok_of_toOption (by decide +kernel)) (by decide +kernel)
  have hexpression : (past beforeAssignment 3).expression 0 =
      (.ok (.ident "a"), past beforeAssignment 4) :=
    Prod.ext (eq_ok_of_toOption (by decide +kernel)) (by decide +kernel)
  have hagree : AgreeTo 10 beforeAssignment beforeDisorder := by
    unfold AgreeTo
    decide +kernel
  have hdiffer : ¬ AgreeTo 11 beforeAssignment beforeDisorder := by
    unfold AgreeTo
    decide +kernel
  have hten : (past beforeAssignment 10).position beforeAssignment = 10 := by decide +kernel
  have hfour : (past beforeAssignment 4).position beforeAssignment = 4 := by decide +kernel
  have hstatement' := (looks_one_token_ahead beforeAssignment 2).1 _ _ hstatement beforeDisorder
  have hexpression' :=
    (looks_one_token_ahead beforeAssignment 3).2 0 _ _ hexpression beforeDisorder
  rw [hten] at hstatement'
  rw [hfour] at hexpression'
  exact ⟨hstatement, hexpression, hagree, hdiffer, hstatement' hagree,
    hexpression' fun k hk => hagree k (by omega)⟩

-- The token after what is read does count: here it takes the expression further.
example : ((past (Token.ofExpression "a".toList 1) 0).expression 0).1.toOption =
      some (.ident "a") ∧
    ((past (Token.ofExpression "a.b".toList 1) 0).expression 0).1.toOption =
      some (.attr (.ident "a") "b") := by decide +kernel

end Cursor

end Offside.Grammar
