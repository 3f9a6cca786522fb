import Offside.Grammar.Expression

/-!
# Offside.Proofs.Derivation.Expression

The grammar of expressions as a **relation**, apart from the way in which it is
read: `Forms r ph ts` says that the tokens `ts`, all of them, form the phrase
`ph`. Main statement: `expression_eq_ok_iff`, by which reading is sound and
complete. It succeeds exactly when some of the tokens at the start form an
expression and those after them cannot extend it.

Design points:

* The rules know nothing of the tokens that follow a phrase. Where reading stops
  is said once, by `Ends`.
* The left operand of an operator is an expression of the operator's own power
  and the right one of a greater power. This is where reading by climbing and the
  rules differ in shape: the reader holds a left operand without knowing which
  operator comes next (`climb_sound`).
-/

namespace Offside.Grammar

/-! ### Steps that succeed

The reader is written in steps. What a step that succeeds has done is said here once
for each way of making steps.
-/

namespace Step

variable {j k : Nat} {ts us : List Token} {α β : Type}

/-- Two steps succeed exactly as both do, the second from where the first has stopped. -/
theorem andThen_eq_ok {s : Step k ts α}
    {f : α → (us : List Token) → us.length + k ≤ ts.length → Step j us β} {b : β}
    (h : (s.andThen f).run = (.ok b, us)) :
    ∃ a vs hle, s.run = (.ok a, vs) ∧ (f a vs hle).run = (.ok b, us) := by
  obtain ⟨result, rest, hsuffix, hprogress⟩ := s
  cases result with
  | ok a => exact ⟨a, rest, hprogress a rfl, rfl, h⟩
  | error e => cases h

theorem done_eq_ok {a b : α} (h : (done a : Step 0 ts α).run = (.ok b, us)) : a = b ∧ ts = us := by
  obtain ⟨hb, hus⟩ := Prod.mk.inj h
  exact ⟨Except.ok.inj hb, hus⟩

/-- A step whose result is passed through a function succeeds as it does without it. -/
theorem map_eq_ok {s : Step k ts α} {f : α → β} {b : β} (h : (s.map f).run = (.ok b, us)) :
    ∃ a, s.run = (.ok a, us) ∧ f a = b := by
  obtain ⟨result, rest, hsuffix, hprogress⟩ := s
  cases result with
  | ok a =>
      obtain ⟨hb, rfl⟩ := Prod.mk.inj h
      exact ⟨a, rfl, Except.ok.inj hb⟩
  | error e => cases h

theorem run_map_of_ok {s : Step k ts α} {a : α} (h : s.run = (.ok a, us)) (f : α → β) :
    (s.map f).run = (.ok (f a), us) := by
  rw [run_map, h]
  rfl

end Step

/-- An expected token was there, with its kind and its text. -/
theorem expect_eq_ok {endLine : Nat} {kind : TokenKind} {text : Option String} {ts us : List Token}
    {t : Token} (h : (expect endLine kind text ts).run = (.ok t, us)) :
    ts = t :: us ∧ t.kind = kind ∧ ∀ s ∈ text, t.text = s := by
  cases ts with
  | nil => cases h
  | cons u ts =>
      rw [expect, Step.run_consume] at h
      split at h
      · rename_i hexpected
        obtain ⟨ht, rfl⟩ := Prod.mk.inj h
        obtain rfl := Except.ok.inj ht
        refine ⟨rfl, hexpected.1, ?_⟩
        rintro s rfl
        exact (of_decide_eq_true hexpected.2).symm
      · cases h

/-- A token that is expected by its text was there. -/
theorem expect_text_eq_ok {endLine : Nat} {kind : TokenKind} {text : String} {ts us : List Token}
    {t : Token} (h : (expect endLine kind (some text) ts).run = (.ok t, us)) :
    ts = t :: us ∧ t.is kind text = true := by
  obtain ⟨hts, hkind, htext⟩ := expect_eq_ok h
  exact ⟨hts, Token.is_iff.2 ⟨hkind, htext text rfl⟩⟩

/-- A token of the expected kind is taken. -/
theorem run_expect_kind (endLine : Nat) {kind : TokenKind} {t : Token} (h : t.kind = kind)
    (ts : List Token) : (expect endLine kind none (t :: ts)).run = (.ok t, ts) := by
  rw [expect, Step.run_consume, if_pos ⟨h, rfl⟩]
  rfl

/-- A token of the expected kind and text is taken. -/
theorem run_expect_text (endLine : Nat) {kind : TokenKind} {text : String} {t : Token}
    (h : t.is kind text = true) (ts : List Token) :
    (expect endLine kind (some text) (t :: ts)).run = (.ok t, ts) := by
  obtain ⟨hkind, htext⟩ := Token.is_iff.1 h
  rw [expect, Step.run_consume, if_pos ⟨hkind, by simp [htext]⟩]
  rfl

theorem peek_cons (endLine : Nat) (t : Token) (ts : List Token) : peek endLine (t :: ts) = t := rfl

/-! ### Phrases -/

/-- A syntactic category together with what is read. -/
inductive Phrase where
  /-- An expression whose operators all have at least the given power. -/
  | expression (minPower : Nat) (e : Expr)
  | unary (e : Expr)
  | primary (e : Expr)
  | atom (e : Expr)
  /-- Arguments and the parenthesis that closes them. -/
  | arguments (es : List Expr)
  /-- What may follow an argument. -/
  | moreArguments (es : List Expr)
  /-- Items of a list and the bracket that closes it. -/
  | items (es : List Expr)
  /-- What may follow an item. -/
  | moreItems (es : List Expr)

/-- The tokens form a phrase, where `r` reads the f-strings. -/
inductive Forms (r : Reader) : Phrase → List Token → Prop where
  | number {t : Token} {value : Binary64} :
      t.kind = .number → Numeral.read? t.text = some value →
      Forms r (.atom (.literal (.number value))) [t]
  | string {t : Token} :
      t.kind = .string → Forms r (.atom (.literal (.string (Text.unescape t.text)))) [t]
  | fstring {t : Token} {quasis : List String} {expressions : List Expr} :
      t.kind = .fstring → r t.text t.line = .ok (quasis, expressions) →
      Forms r (.atom (.fstring quasis expressions)) [t]
  | ident {t : Token} : t.kind = .identifier → Forms r (.atom (.ident t.text)) [t]
  | constant {t : Token} {value : Literal} :
      t.kind = .keyword → constant? t.text = some value → Forms r (.atom (.literal value)) [t]
  | group {opening closing : Token} {e : Expr} {ts : List Token} :
      opening.is .delimiter "(" = true → Forms r (.expression 0 e) ts →
      closing.is .delimiter ")" = true →
      Forms r (.atom (.group e)) (opening :: (ts ++ [closing]))
  | list {opening : Token} {es : List Expr} {ts : List Token} :
      opening.is .delimiter "[" = true → Forms r (.items es) ts →
      Forms r (.atom (.list es)) (opening :: ts)
  | ofAtom {e : Expr} {ts : List Token} : Forms r (.atom e) ts → Forms r (.primary e) ts
  | attr {base : Expr} {ts : List Token} {dot name : Token} :
      Forms r (.primary base) ts → dot.kind = .dot → name.kind = .identifier →
      Forms r (.primary (.attr base name.text)) (ts ++ [dot, name])
  | call {base : Expr} {ts us : List Token} {opening : Token} {args : List Expr} :
      Forms r (.primary base) ts → opening.is .delimiter "(" = true →
      Forms r (.arguments args) us → Forms r (.primary (.call base args)) (ts ++ opening :: us)
  | index {base position : Expr} {ts us : List Token} {opening closing : Token} :
      Forms r (.primary base) ts → opening.is .delimiter "[" = true →
      Forms r (.expression 0 position) us → closing.is .delimiter "]" = true →
      Forms r (.primary (.index base position)) (ts ++ opening :: (us ++ [closing]))
  | ofPrimary {e : Expr} {ts : List Token} : Forms r (.primary e) ts → Forms r (.unary e) ts
  | unary {t : Token} {op : UnaryOp} {operand : Expr} {ts : List Token} :
      unaryOp? t = some op → Forms r (.unary operand) ts →
      Forms r (.unary (.unary op operand)) (t :: ts)
  | ofUnary {m : Nat} {e : Expr} {ts : List Token} :
      Forms r (.unary e) ts → Forms r (.expression m e) ts
  | binary {m : Nat} {left right : Expr} {op : BinaryOp} {t : Token} {ts us : List Token} :
      m ≤ op.precedence → Forms r (.expression op.precedence left) ts →
      binaryOp? t = some op → Forms r (.expression (op.precedence + 1) right) us →
      Forms r (.expression m (.binary left op right t.line)) (ts ++ t :: us)
  | noArguments {closing : Token} :
      closing.is .delimiter ")" = true → Forms r (.arguments []) [closing]
  | argument {e : Expr} {es : List Expr} {ts us : List Token} :
      Forms r (.expression 0 e) ts → Forms r (.moreArguments es) us →
      Forms r (.arguments (e :: es)) (ts ++ us)
  | endArguments {closing : Token} :
      closing.is .delimiter ")" = true → Forms r (.moreArguments []) [closing]
  | nextArgument {comma : Token} {e : Expr} {es : List Expr} {ts us : List Token} :
      comma.is .delimiter "," = true → Forms r (.expression 0 e) ts →
      Forms r (.moreArguments es) us → Forms r (.moreArguments (e :: es)) (comma :: (ts ++ us))
  | noItems {closing : Token} :
      closing.is .delimiter "]" = true → Forms r (.items []) [closing]
  | item {e : Expr} {es : List Expr} {ts us : List Token} :
      Forms r (.expression 0 e) ts → Forms r (.moreItems es) us →
      Forms r (.items (e :: es)) (ts ++ us)
  | endItems {closing : Token} :
      closing.is .delimiter "]" = true → Forms r (.moreItems []) [closing]
  | nextItems {comma : Token} {es : List Expr} {ts : List Token} :
      comma.is .delimiter "," = true → Forms r (.items es) ts →
      Forms r (.moreItems es) (comma :: ts)

/-! ### Where reading stops -/

/-- A token extends the primary expression before it. -/
def startsTrailer (t : Token) : Bool :=
  t.kind = .dot || t.is .delimiter "(" || t.is .delimiter "["

/-- The tokens do not extend a primary expression before them. -/
def EndsPrimary (ts : List Token) : Prop := ∀ t ∈ ts.head?, startsTrailer t = false

/-- The tokens do not extend an expression of the power `m` before them. -/
structure Ends (m : Nat) (ts : List Token) : Prop where
  primary : EndsPrimary ts
  power : ∀ t ∈ ts.head?, ∀ op, binaryOp? t = some op → op.precedence < m

/-- What cannot extend an expression cannot extend one of greater power either. -/
theorem Ends.mono {m n : Nat} {ts : List Token} (h : Ends m ts) (hle : m ≤ n) : Ends n ts :=
  ⟨h.primary, fun t ht op hop => Nat.lt_of_lt_of_le (h.power t ht op hop) hle⟩

/-! ### Soundness

By the recursion of the reader: each function takes tokens that form its phrase and
stops where they cannot go on.
-/

section

variable {ctx : Context}

mutual

/-- **What is read as an expression forms it**, and what follows cannot extend it. -/
theorem expression_sound {m : Nat} {ts rest : List Token} {e : Expr}
    (h : (expression ctx m ts).run = (.ok e, rest)) :
    ∃ used, ts = used ++ rest ∧ Forms ctx.fstring (.expression m e) used ∧ Ends m rest := by
  rw [expression] at h
  obtain ⟨left, us, _, hleft, hclimb⟩ := Step.andThen_eq_ok h
  obtain ⟨before, hts, hform, hends⟩ := unary_sound hleft
  obtain ⟨used, rfl, hform, hends⟩ :=
    climb_sound (.ofUnary hform) (fun _ _ _ _ _ => .ofUnary hform) hends hclimb
  exact ⟨before ++ used, by rw [hts, List.append_assoc], hform, hends⟩
termination_by 8 * ts.length + 5

/-- The operand to the left, formed by the tokens `before`, can be one of an
operator that comes next as well as the whole expression. -/
theorem climb_sound {m : Nat} {left e : Expr} {before ts rest : List Token}
    (hform : Forms ctx.fstring (.expression m left) before)
    (hnext : ∀ t ∈ ts.head?, ∀ op, binaryOp? t = some op → m ≤ op.precedence →
      Forms ctx.fstring (.expression op.precedence left) before)
    (hends : EndsPrimary ts) (h : (climb ctx m left ts).run = (.ok e, rest)) :
    ∃ used, ts = used ++ rest ∧ Forms ctx.fstring (.expression m e) (before ++ used) ∧
      Ends m rest := by
  match ts with
  | [] =>
      rw [climb] at h
      obtain ⟨rfl, rfl⟩ := Step.done_eq_ok h
      exact ⟨[], rfl, by rwa [List.append_nil], hends, by simp⟩
  | t :: us =>
      rw [climb] at h
      split at h
      · rename_i hop
        obtain ⟨rfl, rfl⟩ := Step.done_eq_ok h
        exact ⟨[], rfl, by rwa [List.append_nil], hends, by simp [hop]⟩
      · rename_i op hop
        split at h
        · rename_i hlow
          obtain ⟨rfl, rfl⟩ := Step.done_eq_ok h
          exact ⟨[], rfl, by rwa [List.append_nil], hends, by simp [hop, hlow]⟩
        · rename_i hlow
          rw [Step.run_loosen, Step.run_consume] at h
          obtain ⟨right, vs, _, hright, hclimb⟩ := Step.andThen_eq_ok h
          obtain ⟨operand, rfl, hoperand, hstop⟩ := expression_sound hright
          have hpower : m ≤ op.precedence := Nat.le_of_not_lt hlow
          have hleft := hnext t rfl op hop hpower
          -- What follows the right operand binds no tighter than the operator.
          obtain ⟨used, rfl, hform, hends⟩ :=
            climb_sound (.binary hpower hleft hop hoperand)
              (fun u hu op' hop' _ =>
                .binary (Nat.le_of_lt_succ (hstop.power u hu op' hop')) hleft hop hoperand)
              hstop.primary hclimb
          exact ⟨t :: (operand ++ used), by simp, by simpa using hform, hends⟩
termination_by 8 * ts.length
decreasing_by all_goals simp only [List.length_cons]; omega

/-- After a unary operator the operand goes on as far as it can. -/
theorem unary_sound {ts rest : List Token} {e : Expr}
    (h : (unary ctx ts).run = (.ok e, rest)) :
    ∃ used, ts = used ++ rest ∧ Forms ctx.fstring (.unary e) used ∧ EndsPrimary rest := by
  match ts with
  | [] =>
      rw [unary] at h
      obtain ⟨used, hts, hform, hends⟩ := primary_sound h
      exact ⟨used, hts, .ofPrimary hform, hends⟩
  | t :: us =>
      rw [unary] at h
      split at h
      · rename_i op hop
        rw [Step.run_consume] at h
        obtain ⟨operand, hoperand, rfl⟩ := Step.map_eq_ok h
        obtain ⟨used, rfl, hform, hends⟩ := unary_sound hoperand
        exact ⟨t :: used, rfl, .unary hop hform, hends⟩
      · obtain ⟨used, hts, hform, hends⟩ := primary_sound h
        exact ⟨used, hts, .ofPrimary hform, hends⟩
termination_by 8 * ts.length + 4
decreasing_by
  · omega
  · simp only [List.length_cons]; omega
  · omega

theorem primary_sound {ts rest : List Token} {e : Expr}
    (h : (primary ctx ts).run = (.ok e, rest)) :
    ∃ used, ts = used ++ rest ∧ Forms ctx.fstring (.primary e) used ∧ EndsPrimary rest := by
  rw [primary] at h
  obtain ⟨base, us, _, hbase, htrailers⟩ := Step.andThen_eq_ok h
  obtain ⟨before, hts, hform⟩ := atom_sound hbase
  obtain ⟨used, rfl, hform, hends⟩ := trailers_sound (.ofAtom hform) htrailers
  exact ⟨before ++ used, by rw [hts, List.append_assoc], hform, hends⟩
termination_by 8 * ts.length + 3

/-- A primary expression is extended by accesses until none follows. -/
theorem trailers_sound {base e : Expr} {before ts rest : List Token}
    (hform : Forms ctx.fstring (.primary base) before)
    (h : (trailers ctx base ts).run = (.ok e, rest)) :
    ∃ used, ts = used ++ rest ∧ Forms ctx.fstring (.primary e) (before ++ used) ∧
      EndsPrimary rest := by
  -- Each trailer makes a primary expression of what was read before it, so the tokens of
  -- that are carried along in `before`.
  match ts with
  | [] =>
      rw [trailers] at h
      obtain ⟨rfl, rfl⟩ := Step.done_eq_ok h
      exact ⟨[], rfl, by rwa [List.append_nil], by simp [EndsPrimary]⟩
  | t :: us =>
      rw [trailers] at h
      split at h
      · rename_i hdot
        rw [Step.run_loosen, Step.run_consume] at h
        obtain ⟨name, vs, _, hname, hmore⟩ := Step.andThen_eq_ok h
        obtain ⟨rfl, hkind, -⟩ := expect_eq_ok hname
        obtain ⟨used, rfl, hform, hends⟩ := trailers_sound (.attr hform hdot hkind) hmore
        exact ⟨t :: name :: used, rfl, by simpa using hform, hends⟩
      · rename_i hdot
        split at h
        · rename_i hopening
          rw [Step.run_loosen, Step.run_consume] at h
          obtain ⟨args, vs, _, hargs, hmore⟩ := Step.andThen_eq_ok h
          obtain ⟨inner, rfl, hinner⟩ := arguments_sound hargs
          obtain ⟨used, rfl, hform, hends⟩ := trailers_sound (.call hform hopening hinner) hmore
          exact ⟨t :: (inner ++ used), by simp, by simpa using hform, hends⟩
        · rename_i hcall
          split at h
          · rename_i hopening
            rw [Step.run_loosen, Step.run_consume] at h
            obtain ⟨position, vs, _, hposition, hrest⟩ := Step.andThen_eq_ok h
            obtain ⟨closing, ws, _, hexpect, hmore⟩ := Step.andThen_eq_ok hrest
            obtain ⟨inner, rfl, hinner, -⟩ := expression_sound hposition
            obtain ⟨rfl, hclosing⟩ := expect_text_eq_ok hexpect
            obtain ⟨used, rfl, hform, hends⟩ :=
              trailers_sound (.index hform hopening hinner hclosing) hmore
            exact ⟨t :: (inner ++ closing :: used), by simp, by simpa using hform, hends⟩
          · rename_i hindex
            obtain ⟨rfl, rfl⟩ := Step.done_eq_ok h
            refine ⟨[], rfl, by rwa [List.append_nil], ?_⟩
            simp_all [EndsPrimary, startsTrailer]
termination_by 8 * ts.length
decreasing_by all_goals simp only [List.length_cons]; omega

/-- An atom is read from its tokens and asks for nothing of what follows. -/
theorem atom_sound {ts rest : List Token} {e : Expr} (h : (atom ctx ts).run = (.ok e, rest)) :
    ∃ used, ts = used ++ rest ∧ Forms ctx.fstring (.atom e) used := by
  match ts with
  | [] =>
      rw [atom] at h
      cases h
  | t :: us =>
      rw [atom] at h
      split at h
      · rename_i hkind
        rw [Step.run_consume] at h
        split at h
        · rename_i value hvalue
          obtain ⟨rfl, rfl⟩ := Step.done_eq_ok h
          exact ⟨[t], rfl, .number hkind hvalue⟩
        · cases h
      · rename_i hkind
        obtain ⟨rfl, rfl⟩ := Step.done_eq_ok h
        exact ⟨[t], rfl, .string hkind⟩
      · rename_i hkind
        rw [Step.run_consume, Step.run_ofExcept] at h
        obtain ⟨hread, rfl⟩ := Prod.mk.inj h
        cases hparts : ctx.fstring t.text t.line with
        | error failure => simp [hparts, Except.map] at hread
        | ok parts =>
            obtain rfl : .fstring parts.1 parts.2 = e := by simpa [hparts, Except.map] using hread
            exact ⟨[t], rfl, .fstring hkind hparts⟩
      · rename_i hkind
        obtain ⟨rfl, rfl⟩ := Step.done_eq_ok h
        exact ⟨[t], rfl, .ident hkind⟩
      · rename_i hkind
        split at h
        · rename_i value hvalue
          obtain ⟨rfl, rfl⟩ := Step.done_eq_ok h
          exact ⟨[t], rfl, .constant hkind hvalue⟩
        · cases h
      · rename_i hkind
        split at h
        · rename_i htext
          rw [Step.run_consume] at h
          obtain ⟨inner, vs, _, hinner, hrest⟩ := Step.andThen_eq_ok h
          obtain ⟨closing, hexpect, rfl⟩ := Step.map_eq_ok hrest
          obtain ⟨used, rfl, hform, -⟩ := expression_sound hinner
          obtain ⟨rfl, hclosing⟩ := expect_text_eq_ok hexpect
          exact ⟨t :: (used ++ [closing]), by simp,
            .group (Token.is_iff.2 ⟨hkind, htext⟩) hform hclosing⟩
        · split at h
          · rename_i htext
            rw [Step.run_consume] at h
            obtain ⟨es, hitems, rfl⟩ := Step.map_eq_ok h
            obtain ⟨used, rfl, hform⟩ := items_sound hitems
            exact ⟨t :: used, rfl, .list (Token.is_iff.2 ⟨hkind, htext⟩) hform⟩
          · cases h
      · cases h
termination_by 8 * ts.length + 2
decreasing_by all_goals simp only [List.length_cons]; omega

theorem arguments_sound {ts rest : List Token} {es : List Expr}
    (h : (arguments ctx ts).run = (.ok es, rest)) :
    ∃ used, ts = used ++ rest ∧ Forms ctx.fstring (.arguments es) used := by
  rw [arguments] at h
  split at h
  · obtain ⟨closing, hexpect, rfl⟩ := Step.map_eq_ok h
    obtain ⟨rfl, hclosing⟩ := expect_text_eq_ok hexpect
    exact ⟨[closing], rfl, .noArguments hclosing⟩
  · obtain ⟨arg, us, _, harg, hrest⟩ := Step.andThen_eq_ok h
    obtain ⟨more, hmore, rfl⟩ := Step.map_eq_ok hrest
    obtain ⟨first, rfl, hfirst, -⟩ := expression_sound harg
    obtain ⟨used, rfl, hform⟩ := moreArguments_sound hmore
    exact ⟨first ++ used, by simp, .argument hfirst hform⟩
termination_by 8 * ts.length + 6
decreasing_by all_goals omega

theorem moreArguments_sound {ts rest : List Token} {es : List Expr}
    (h : (moreArguments ctx ts).run = (.ok es, rest)) :
    ∃ used, ts = used ++ rest ∧ Forms ctx.fstring (.moreArguments es) used := by
  match ts with
  | [] =>
      rw [moreArguments] at h
      cases h
  | t :: us =>
      rw [moreArguments] at h
      split at h
      · rename_i hcomma
        rw [Step.run_consume] at h
        obtain ⟨arg, vs, _, harg, hrest⟩ := Step.andThen_eq_ok h
        obtain ⟨more, hmore, rfl⟩ := Step.map_eq_ok hrest
        obtain ⟨first, rfl, hfirst, -⟩ := expression_sound harg
        obtain ⟨used, rfl, hform⟩ := moreArguments_sound hmore
        exact ⟨t :: (first ++ used), by simp, .nextArgument hcomma hfirst hform⟩
      · obtain ⟨closing, hexpect, rfl⟩ := Step.map_eq_ok h
        obtain ⟨hts, hclosing⟩ := expect_text_eq_ok hexpect
        exact ⟨[closing], hts, .endArguments hclosing⟩
termination_by 8 * ts.length
decreasing_by all_goals simp only [List.length_cons]; omega

theorem items_sound {ts rest : List Token} {es : List Expr}
    (h : (items ctx ts).run = (.ok es, rest)) :
    ∃ used, ts = used ++ rest ∧ Forms ctx.fstring (.items es) used := by
  rw [items] at h
  split at h
  · obtain ⟨closing, hexpect, rfl⟩ := Step.map_eq_ok h
    obtain ⟨rfl, hclosing⟩ := expect_text_eq_ok hexpect
    exact ⟨[closing], rfl, .noItems hclosing⟩
  · obtain ⟨item, us, _, hitem, hrest⟩ := Step.andThen_eq_ok h
    obtain ⟨more, hmore, rfl⟩ := Step.map_eq_ok hrest
    obtain ⟨first, rfl, hfirst, -⟩ := expression_sound hitem
    obtain ⟨used, rfl, hform⟩ := moreItems_sound hmore
    exact ⟨first ++ used, by simp, .item hfirst hform⟩
termination_by 8 * ts.length + 6
decreasing_by all_goals omega

theorem moreItems_sound {ts rest : List Token} {es : List Expr}
    (h : (moreItems ctx ts).run = (.ok es, rest)) :
    ∃ used, ts = used ++ rest ∧ Forms ctx.fstring (.moreItems es) used := by
  match ts with
  | [] =>
      rw [moreItems] at h
      cases h
  | t :: us =>
      rw [moreItems] at h
      split at h
      · rename_i hcomma
        rw [Step.run_consume] at h
        obtain ⟨used, rfl, hform⟩ := items_sound h
        exact ⟨t :: used, rfl, .nextItems hcomma hform⟩
      · obtain ⟨closing, hexpect, rfl⟩ := Step.map_eq_ok h
        obtain ⟨hts, hclosing⟩ := expect_text_eq_ok hexpect
        exact ⟨[closing], hts, .endItems hclosing⟩
termination_by 8 * ts.length
decreasing_by all_goals simp only [List.length_cons]; omega

end

end

/-! ### How phrases start

The reader decides by the next token alone, so for completeness the first token of
each phrase must lead it to the right function.
-/

/-- A token starts an atom. -/
def startsAtom (t : Token) : Bool :=
  match t.kind with
  | .number | .string | .fstring | .identifier => true
  | .keyword => (constant? t.text).isSome
  | .delimiter => t.text = "(" || t.text = "["
  | _ => false

/-- A token starts an expression. -/
def startsExpression (t : Token) : Bool := (unaryOp? t).isSome || startsAtom t

/-- A token that a phrase can start with. -/
def Phrase.startsWith (t : Token) : Phrase → Bool
  | .expression .. | .unary _ => startsExpression t
  | .primary _ | .atom _ => startsAtom t
  | .arguments _ => startsExpression t || t.is .delimiter ")"
  | .items _ => startsExpression t || t.is .delimiter "]"
  | .moreArguments _ => t.is .delimiter "," || t.is .delimiter ")"
  | .moreItems _ => t.is .delimiter "," || t.is .delimiter "]"

/-- Every phrase has a first token, and its kind of phrase says which ones are
possible. -/
theorem Forms.exists_cons {r : Reader} {ph : Phrase} {ts : List Token} (h : Forms r ph ts) :
    ∃ t us, ts = t :: us ∧ ph.startsWith t = true := by
  induction h with
  | number hkind | string hkind | fstring hkind | ident hkind =>
      exact ⟨_, _, rfl, by simp [Phrase.startsWith, startsAtom, hkind]⟩
  | constant hkind hvalue =>
      exact ⟨_, _, rfl, by simp [Phrase.startsWith, startsAtom, hkind, hvalue]⟩
  | group hopening | list hopening =>
      obtain ⟨hkind, htext⟩ := Token.is_iff.1 hopening
      exact ⟨_, _, rfl, by simp [Phrase.startsWith, startsAtom, hkind, htext]⟩
  | ofAtom _ ih => exact ih
  | attr _ _ _ ih | call _ _ _ ih | index _ _ _ _ ih | binary _ _ _ _ ih =>
      obtain ⟨t, us, rfl, hstart⟩ := ih
      exact ⟨t, _, rfl, hstart⟩
  | ofPrimary _ ih =>
      obtain ⟨t, us, rfl, hstart⟩ := ih
      exact ⟨t, us, rfl, Bool.or_eq_true_iff.2 (.inr hstart)⟩
  | unary hop => exact ⟨_, _, rfl, by simp [Phrase.startsWith, startsExpression, hop]⟩
  | ofUnary _ ih => exact ih
  | argument _ _ ih | item _ _ ih =>
      obtain ⟨t, us, rfl, hstart⟩ := ih
      exact ⟨t, _, rfl, Bool.or_eq_true_iff.2 (.inl hstart)⟩
  | noArguments hclosing | endArguments hclosing | noItems hclosing | endItems hclosing =>
      exact ⟨_, _, rfl, Bool.or_eq_true_iff.2 (.inr hclosing)⟩
  | nextArgument hcomma | nextItems hcomma =>
      exact ⟨_, _, rfl, Bool.or_eq_true_iff.2 (.inl hcomma)⟩

/-- No atom starts with a unary operator, so the reader never takes one for the other. -/
theorem unaryOp?_of_startsAtom {t : Token} (h : startsAtom t = true) : unaryOp? t = none := by
  obtain ⟨kind, text, line⟩ := t
  have hoperator : kind ≠ .operator := by
    rintro rfl
    cases h
  have hnot : ¬ (kind = .keyword ∧ text = "not") := by
    rintro ⟨rfl, rfl⟩
    cases h
  simp [unaryOp?, Token.is, hoperator, hnot]

/-- A token of a class is none that is outside the class. -/
theorem is_eq_false_of_class {p : Token → Bool} {t : Token} (h : p t = true) (kind : TokenKind)
    (text : String) (hno : p ⟨kind, text, t.line⟩ = false) : t.is kind text = false := by
  rw [Bool.eq_false_iff]
  intro his
  obtain ⟨rfl, rfl⟩ := Token.is_iff.1 his
  rw [h] at hno
  cases hno

/-! ### Completeness

By induction on the derivation. `Reads` says for each phrase that it is read before
every text that ends it.
-/

section

variable (ctx : Context)

/-- Climbing stops where nothing extends the expression. -/
theorem run_climb_of_ends {m : Nat} {rest : List Token} (e : Expr) (h : Ends m rest) :
    (climb ctx m e rest).run = (.ok e, rest) := by
  cases rest with
  | nil => rw [climb, Step.run_done]
  | cons t us =>
      rw [climb]
      split
      · rfl
      · rename_i op hop
        rw [if_pos (h.power t rfl op hop), Step.run_done]

/-- Reading accesses stops where none follows. -/
theorem run_trailers_of_ends {rest : List Token} (e : Expr) (h : EndsPrimary rest) :
    (trailers ctx e rest).run = (.ok e, rest) := by
  cases rest with
  | nil => rw [trailers, Step.run_done]
  | cons t us =>
      have hno := h t rfl
      simp only [startsTrailer, Bool.or_eq_false_iff, decide_eq_false_iff_not] at hno
      rw [trailers, if_neg hno.1.1, if_neg (by simp [hno.1.2]), if_neg (by simp [hno.2]),
        Step.run_done]

/-- What reading gives for tokens that form a phrase, whatever comes after them.
The operand of an operator that comes after is left to the reader. -/
def Reads : Phrase → List Token → Prop
  | .expression p e, ts => ∀ m rest, m ≤ p → Ends (p + 1) rest →
      (expression ctx m (ts ++ rest)).run = (climb ctx m e rest).run
  | .unary e, ts => ∀ rest, EndsPrimary rest → (unary ctx (ts ++ rest)).run = (.ok e, rest)
  | .primary e, ts => ∀ rest, (primary ctx (ts ++ rest)).run = (trailers ctx e rest).run
  | .atom e, ts => ∀ rest, (atom ctx (ts ++ rest)).run = (.ok e, rest)
  | .arguments es, ts => ∀ rest, (arguments ctx (ts ++ rest)).run = (.ok es, rest)
  | .moreArguments es, ts => ∀ rest, (moreArguments ctx (ts ++ rest)).run = (.ok es, rest)
  | .items es, ts => ∀ rest, (items ctx (ts ++ rest)).run = (.ok es, rest)
  | .moreItems es, ts => ∀ rest, (moreItems ctx (ts ++ rest)).run = (.ok es, rest)

variable {ctx}

/-- An expression that is read before everything is read before what ends it. -/
theorem Reads.expression {m : Nat} {e : Expr} {ts rest : List Token}
    (h : Reads ctx (.expression m e) ts) (hends : Ends m rest) :
    (Grammar.expression ctx m (ts ++ rest)).run = (.ok e, rest) := by
  rw [h m rest (Nat.le_refl m) (hends.mono (Nat.le_succ m)), run_climb_of_ends ctx e hends]

/-- A delimiter ends an expression unless it opens a call or a position. -/
theorem ends_delimiter {t : Token} {text : String} (h : t.is .delimiter text = true)
    (hcall : text ≠ "(") (hindex : text ≠ "[") (m : Nat) (ts : List Token) :
    Ends m (t :: ts) := by
  obtain ⟨hkind, rfl⟩ := Token.is_iff.1 h
  constructor
  · rintro _ ⟨⟩
    simp [startsTrailer, Token.is, hkind, hcall, hindex]
  · rintro _ ⟨⟩ op hop
    simp [binaryOp?, hkind] at hop

/-- A binary operator starts no access. -/
theorem startsTrailer_of_binaryOp? {t : Token} {op : BinaryOp} (h : binaryOp? t = some op) :
    startsTrailer t = false := by
  have hkind : t.kind = .operator ∨ t.kind = .keyword := by
    unfold binaryOp? at h
    split at h <;> simp_all
  rcases hkind with hkind | hkind <;> simp [startsTrailer, Token.is, hkind]

theorem Reads.ofUnary {m : Nat} {e : Expr} {ts : List Token}
    (h : Reads ctx (.unary e) ts) : Reads ctx (.expression m e) ts := by
  intro p rest _ hends
  rw [Grammar.expression]
  obtain ⟨_, hrun⟩ := Step.run_andThen_of_ok (h rest hends.primary) _
  exact hrun

/-- The case in which climbing and the rules differ: the left operand is read first,
and climbing goes on from it with the operator. -/
theorem Reads.binary {m : Nat} {left right : Expr} {op : BinaryOp} {t : Token}
    {ts us : List Token} (hpower : m ≤ op.precedence)
    (hleft : Reads ctx (.expression op.precedence left) ts) (hop : binaryOp? t = some op)
    (hright : Reads ctx (.expression (op.precedence + 1) right) us) :
    Reads ctx (.expression m (.binary left op right t.line)) (ts ++ t :: us) := by
  intro p rest hp hends
  -- The left operand ends at the operator, which does not bind tighter than itself.
  have hnext : Ends (op.precedence + 1) (t :: (us ++ rest)) := by
    constructor
    · rintro _ ⟨⟩
      exact startsTrailer_of_binaryOp? hop
    · rintro _ ⟨⟩ op' hop'
      obtain rfl := Option.some.inj (hop.symm.trans hop')
      exact Nat.lt_succ_self _
  have hstop : Ends (op.precedence + 1) rest := hends.mono (Nat.succ_le_succ hpower)
  rw [List.append_assoc, List.cons_append, hleft p _ (Nat.le_trans hp hpower) hnext, climb]
  simp only [hop, if_neg (Nat.not_lt.2 (Nat.le_trans hp hpower)), Step.run_loosen,
    Step.run_consume]
  obtain ⟨_, hrun⟩ := Step.run_andThen_of_ok (hright.expression hstop) _
  exact hrun

theorem Reads.ofPrimary {e : Expr} {ts : List Token} (h : Reads ctx (.primary e) ts)
    (hstart : ∃ t us, ts = t :: us ∧ startsAtom t = true) : Reads ctx (.unary e) ts := by
  intro rest hends
  obtain ⟨t, us, rfl, hstart⟩ := hstart
  rw [List.cons_append, unary]
  simp only [unaryOp?_of_startsAtom hstart]
  rw [← List.cons_append, h rest, run_trailers_of_ends ctx e hends]

theorem Reads.call {base : Expr} {ts us : List Token} {opening : Token} {args : List Expr}
    (hbase : Reads ctx (.primary base) ts) (hopening : opening.is .delimiter "(" = true)
    (hargs : Reads ctx (.arguments args) us) :
    Reads ctx (.primary (.call base args)) (ts ++ opening :: us) := by
  intro rest
  have hkind : opening.kind ≠ .dot := by simp [(Token.is_iff.1 hopening).1]
  rw [List.append_assoc, List.cons_append, hbase, trailers, if_neg hkind, if_pos hopening,
    Step.run_loosen, Step.run_consume]
  obtain ⟨_, hrun⟩ := Step.run_andThen_of_ok (hargs rest) _
  exact hrun

theorem Reads.index {base position : Expr} {ts us : List Token} {opening closing : Token}
    (hbase : Reads ctx (.primary base) ts) (hopening : opening.is .delimiter "[" = true)
    (hposition : Reads ctx (.expression 0 position) us)
    (hclosing : closing.is .delimiter "]" = true) :
    Reads ctx (.primary (.index base position)) (ts ++ opening :: (us ++ [closing])) := by
  intro rest
  obtain ⟨hkind, htext⟩ := Token.is_iff.1 hopening
  have hcall : ¬ opening.is .delimiter "(" = true := by simp [Token.is, htext]
  rw [List.append_assoc, List.cons_append, hbase, trailers, if_neg (by simp [hkind]),
    if_neg hcall, if_pos hopening, Step.run_loosen, Step.run_consume, List.append_assoc]
  have hends := ends_delimiter hclosing (by decide) (by decide) 0 rest
  obtain ⟨_, hrun⟩ := Step.run_andThen_of_ok (hposition.expression hends) _
  obtain ⟨_, hrun'⟩ := Step.run_andThen_of_ok (run_expect_text ctx.endLine hclosing rest) _
  exact hrun.trans hrun'

theorem Reads.attr {base : Expr} {ts : List Token} {dot name : Token}
    (hbase : Reads ctx (.primary base) ts) (hdot : dot.kind = .dot)
    (hname : name.kind = .identifier) :
    Reads ctx (.primary (.attr base name.text)) (ts ++ [dot, name]) := by
  intro rest
  rw [List.append_assoc, List.cons_append, hbase, trailers, if_pos hdot, Step.run_loosen,
    Step.run_consume]
  obtain ⟨_, hrun⟩ := Step.run_andThen_of_ok (run_expect_kind ctx.endLine hname rest) _
  exact hrun

theorem Reads.group {e : Expr} {ts : List Token} {opening closing : Token}
    (hopening : opening.is .delimiter "(" = true) (he : Reads ctx (.expression 0 e) ts)
    (hclosing : closing.is .delimiter ")" = true) :
    Reads ctx (.atom (.group e)) (opening :: (ts ++ [closing])) := by
  intro rest
  obtain ⟨hkind, htext⟩ := Token.is_iff.1 hopening
  have hends := ends_delimiter hclosing (by decide) (by decide) 0 rest
  rw [List.cons_append, List.append_assoc, atom]
  simp only [hkind, htext, if_true, Step.run_consume]
  obtain ⟨_, hrun⟩ := Step.run_andThen_of_ok (he.expression hends) _
  exact hrun.trans (Step.run_map_of_ok (run_expect_text ctx.endLine hclosing rest) _)

theorem run_closing {closing : Token} {text : String} (h : closing.is .delimiter text = true)
    (rest : List Token) :
    ((expect ctx.endLine .delimiter (some text) (closing :: rest)).map
      fun _ => ([] : List Expr)).run = (.ok [], rest) :=
  Step.run_map_of_ok (run_expect_text ctx.endLine h rest) _

theorem Reads.endArguments {closing : Token} (h : closing.is .delimiter ")" = true) :
    Reads ctx (.moreArguments []) [closing] := by
  intro rest
  have hcomma : ¬ closing.is .delimiter "," = true := by simp [Token.is, (Token.is_iff.1 h).2]
  rw [List.singleton_append, moreArguments, if_neg hcomma, run_closing h]

theorem Reads.endItems {closing : Token} (h : closing.is .delimiter "]" = true) :
    Reads ctx (.moreItems []) [closing] := by
  intro rest
  have hcomma : ¬ closing.is .delimiter "," = true := by simp [Token.is, (Token.is_iff.1 h).2]
  rw [List.singleton_append, moreItems, if_neg hcomma, run_closing h]

/-- Arguments are separated by commas; the token after each one ends it. -/
theorem Reads.nextArgument {comma : Token} {e : Expr} {es : List Expr} {ts us : List Token}
    (hcomma : comma.is .delimiter "," = true) (he : Reads ctx (.expression 0 e) ts)
    (hes : Reads ctx (.moreArguments es) us) (hends : ∀ rest, Ends 0 (us ++ rest)) :
    Reads ctx (.moreArguments (e :: es)) (comma :: (ts ++ us)) := by
  intro rest
  rw [List.cons_append, List.append_assoc, moreArguments, if_pos hcomma, Step.run_consume]
  obtain ⟨_, hrun⟩ := Step.run_andThen_of_ok (he.expression (hends rest)) _
  exact hrun.trans (Step.run_map_of_ok (hes rest) _)

theorem Reads.argument {e : Expr} {es : List Expr} {ts us : List Token}
    (hstart : ∃ t vs, ts = t :: vs ∧ startsExpression t = true)
    (he : Reads ctx (.expression 0 e) ts) (hes : Reads ctx (.moreArguments es) us)
    (hends : ∀ rest, Ends 0 (us ++ rest)) : Reads ctx (.arguments (e :: es)) (ts ++ us) := by
  intro rest
  obtain ⟨t, vs, rfl, hstart⟩ := hstart
  have hclosing : ¬ t.is .delimiter ")" = true :=
    Bool.eq_false_iff.1 (is_eq_false_of_class hstart _ _ rfl)
  rw [List.append_assoc, arguments, List.cons_append, peek_cons, if_neg hclosing]
  obtain ⟨_, hrun⟩ := Step.run_andThen_of_ok (he.expression (hends rest)) _
  exact hrun.trans (Step.run_map_of_ok (hes rest) _)

theorem Reads.item {e : Expr} {es : List Expr} {ts us : List Token}
    (hstart : ∃ t vs, ts = t :: vs ∧ startsExpression t = true)
    (he : Reads ctx (.expression 0 e) ts) (hes : Reads ctx (.moreItems es) us)
    (hends : ∀ rest, Ends 0 (us ++ rest)) : Reads ctx (.items (e :: es)) (ts ++ us) := by
  intro rest
  obtain ⟨t, vs, rfl, hstart⟩ := hstart
  have hclosing : ¬ t.is .delimiter "]" = true :=
    Bool.eq_false_iff.1 (is_eq_false_of_class hstart _ _ rfl)
  rw [List.append_assoc, items, List.cons_append, peek_cons, if_neg hclosing]
  obtain ⟨_, hrun⟩ := Step.run_andThen_of_ok (he.expression (hends rest)) _
  exact hrun.trans (Step.run_map_of_ok (hes rest) _)

/-- A comma ends an expression, and so does a bracket that closes. -/
theorem ends_separator {ts : List Token} {closing : String} (hcall : closing ≠ "(")
    (hindex : closing ≠ "[")
    (h : ∃ t us, ts = t :: us ∧ (t.is .delimiter "," || t.is .delimiter closing) = true)
    (rest : List Token) : Ends 0 (ts ++ rest) := by
  obtain ⟨t, us, rfl, hstart⟩ := h
  rcases Bool.or_eq_true_iff.1 hstart with hcomma | hclosing
  · exact ends_delimiter hcomma (by decide) (by decide) 0 _
  · exact ends_delimiter hclosing hcall hindex 0 _

/-- Tokens that form a phrase are read as that phrase. -/
theorem Forms.reads {ph : Phrase} {ts : List Token} (h : Forms ctx.fstring ph ts) :
    Reads ctx ph ts := by
  -- By induction on the derivation. That a part of a phrase ends where it should is known
  -- from the first token of the next part.
  induction h with
  | number hkind hvalue =>
      intro rest
      rw [List.singleton_append, atom]
      simp only [hkind, hvalue, Step.run_consume, Step.run_done]
  | string hkind =>
      intro rest
      rw [List.singleton_append, atom]
      simp only [hkind, Step.run_consume, Step.run_done]
  | fstring hkind hread =>
      intro rest
      rw [List.singleton_append, atom]
      simp only [hkind, hread, Step.run_consume, Step.run_ofExcept, Except.map]
  | ident hkind =>
      intro rest
      rw [List.singleton_append, atom]
      simp only [hkind, Step.run_consume, Step.run_done]
  | constant hkind hvalue =>
      intro rest
      rw [List.singleton_append, atom]
      simp only [hkind, hvalue, Step.run_consume, Step.run_done]
  | group hopening _ hclosing ih => exact Reads.group hopening ih hclosing
  | list hopening _ ih =>
      intro rest
      obtain ⟨hkind, htext⟩ := Token.is_iff.1 hopening
      rw [List.cons_append, atom]
      simp only [hkind, htext]
      exact Step.run_map_of_ok (ih rest) _
  | ofAtom _ ih =>
      intro rest
      rw [primary]
      obtain ⟨_, hrun⟩ := Step.run_andThen_of_ok (ih rest) _
      exact hrun
  | attr _ hdot hname ih => exact Reads.attr ih hdot hname
  | call _ hopening _ ihbase ihargs => exact Reads.call ihbase hopening ihargs
  | index _ hopening _ hclosing ihbase ihposition =>
      exact Reads.index ihbase hopening ihposition hclosing
  | ofPrimary h ih => exact Reads.ofPrimary ih h.exists_cons
  | unary hop _ ih =>
      intro rest hends
      rw [List.cons_append, Grammar.unary]
      simp only [hop, Step.run_consume]
      exact Step.run_map_of_ok (ih rest hends) _
  | ofUnary _ ih => exact Reads.ofUnary ih
  | binary hpower _ hop _ ihleft ihright => exact Reads.binary hpower ihleft hop ihright
  | noArguments hclosing =>
      intro rest
      rw [List.singleton_append, Grammar.arguments, peek_cons, if_pos hclosing,
        run_closing hclosing]
  | argument he hes ihe ihes =>
      exact Reads.argument he.exists_cons ihe ihes
        (ends_separator (by decide) (by decide) hes.exists_cons)
  | endArguments hclosing => exact Reads.endArguments hclosing
  | nextArgument hcomma _ hes ihe ihes =>
      exact Reads.nextArgument hcomma ihe ihes
        (ends_separator (by decide) (by decide) hes.exists_cons)
  | noItems hclosing =>
      intro rest
      rw [List.singleton_append, Grammar.items, peek_cons, if_pos hclosing, run_closing hclosing]
  | item he hes ihe ihes =>
      exact Reads.item he.exists_cons ihe ihes
        (ends_separator (by decide) (by decide) hes.exists_cons)
  | endItems hclosing => exact Reads.endItems hclosing
  | nextItems hcomma _ ih =>
      intro rest
      rw [List.cons_append, Grammar.moreItems, if_pos hcomma, Step.run_consume]
      exact ih rest

/-- **What forms an expression is read as it**, if what follows cannot extend it. -/
theorem Forms.run_expression {m : Nat} {e : Expr} {ts rest : List Token}
    (h : Forms ctx.fstring (.expression m e) ts) (hends : Ends m rest) :
    (Grammar.expression ctx m (ts ++ rest)).run = (.ok e, rest) := h.reads.expression hends

theorem Forms.run_primary {e : Expr} {ts rest : List Token}
    (h : Forms ctx.fstring (.primary e) ts) (hends : EndsPrimary rest) :
    (Grammar.primary ctx (ts ++ rest)).run = (.ok e, rest) := by
  rw [h.reads rest, run_trailers_of_ends ctx e hends]

/-- An expression is read exactly from the tokens that form it, if those after
them cannot extend it. -/
theorem expression_eq_ok_iff {m : Nat} {e : Expr} {ts rest : List Token} :
    (expression ctx m ts).run = (.ok e, rest) ↔
      ∃ used, ts = used ++ rest ∧ Forms ctx.fstring (.expression m e) used ∧ Ends m rest := by
  refine ⟨expression_sound, ?_⟩
  rintro ⟨used, rfl, hform, hends⟩
  exact hform.run_expression hends

end

end Offside.Grammar
