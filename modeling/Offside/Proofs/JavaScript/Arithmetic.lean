import Offside.Proofs.JavaScript.Compact
import Offside.Proofs.JavaScript.Regrouping
import Offside.Proofs.JavaScript.Soundness

/-!
# Offside.Proofs.JavaScript.Arithmetic

Sums and products of integers in JavaScript: their values, and what becomes of
them if their text is written without blanks. **It is read with the same value if
no two equal signs meet in it, and is not read as a sum or product otherwise**
(`Expr.value?_read_code`).

If the text starts with a minus, the text behind it stands for the tree without its
first sign. That sign belongs to the first term only, so **the value differs by
twice the value of the first term** (`Expr.value?_dropSign`).
-/

namespace Offside

/-- The integer that a number is, if it is one. -/
def Binary64.toInt? : Binary64 → Option Int
  | .finite negative mantissa exponent =>
    let unit := Nat.pow 2 exponent.natAbs
    let magnitude? :=
      if 0 ≤ exponent then some (mantissa * unit)
      else if mantissa % unit = 0 then some (mantissa / unit)
      else none
    magnitude?.map fun n => if negative then -(n : Int) else n
  | .infinite _ | .nan => none

theorem seq_eq_some_iff {α β : Type} {f : Option (α → β)} {a : Option α} {b : β} :
    f <*> a = some b ↔ ∃ g x, f = some g ∧ a = some x ∧ g x = b := by
  cases f <;> cases a <;> simp [Seq.seq]

namespace Target

/-! ### Values -/

/-- What a binary operator does to integers, if it gives integers. -/
def BinaryOp.onIntegers? : BinaryOp → Option (Int → Int → Int)
  | add => some (· + ·)
  | sub => some (· - ·)
  | mul => some (· * ·)
  | _ => none

/-- What a unary operator does to integers, if it gives integers. -/
def UnaryOp.onIntegers? : UnaryOp → Option (Int → Int)
  | neg => some (- ·)
  | pos => some id
  | not => none

namespace Expr

/-- The value of a sum or product of integers, for given values of the variables. -/
def value? (env : String → Int) : Expr → Option Int
  | .name text => if reservedWords.contains text then none else some (env text)
  | .number value => value.toInt?
  | .binary left op right => op.onIntegers? <*> value? env left <*> value? env right
  | .unary op operand => op.onIntegers? <*> value? env operand
  | .paren inner => value? env inner
  | _ => none

/-- An expression is made of names, numbers, signs, sums, differences and products. -/
def isArithmetic : Expr → Bool
  | .name _ | .number _ => true
  | .binary left op right => op.onIntegers?.isSome && (isArithmetic left && isArithmetic right)
  | .unary op operand => op.onIntegers?.isSome && isArithmetic operand
  | .paren inner => isArithmetic inner
  | _ => false

variable {env : String → Int} {l r t : Expr} {v : Int}

/-- An operation has a value exactly if it is one on integers and its operands have
values. -/
theorem value?_binary_eq_some_iff {op : BinaryOp} :
    (Expr.binary l op r).value? env = some v ↔
      ∃ f a b, op.onIntegers? = some f ∧ l.value? env = some a ∧ r.value? env = some b ∧
        f a b = v := by
  simp only [value?, seq_eq_some_iff]
  constructor
  · rintro ⟨g, b, ⟨f, a, hf, ha, rfl⟩, hb, hv⟩
    exact ⟨f, a, b, hf, ha, hb, hv⟩
  · rintro ⟨f, a, b, hf, ha, hb, hv⟩
    exact ⟨f a, b, ⟨f, a, hf, ha, rfl⟩, hb, hv⟩

theorem value?_unary_eq_some_iff {op : UnaryOp} :
    (Expr.unary op t).value? env = some v ↔
      ∃ f a, op.onIntegers? = some f ∧ t.value? env = some a ∧ f a = v := by
  rw [value?, seq_eq_some_iff]

end Expr

theorem BinaryOp.symbol_mem_of_onIntegers? {op : BinaryOp} (h : op.onIntegers?.isSome = true) :
    op.symbol ∈ ["+", "-", "*"] := by
  cases op with
  | add | sub | mul => decide
  | _ => cases h

theorem UnaryOp.symbol_mem_of_onIntegers? {op : UnaryOp} (h : op.onIntegers?.isSome = true) :
    op.symbol ∈ ["+", "-"] := by
  cases op with
  | neg | pos => decide
  | not => cases h

/-! ### Lexemes -/

namespace Lexeme

/-- A lexeme starts a sum or product. -/
def startsTerm : Lexeme → Bool
  | name _ | number _ => true
  | punctuator symbol => ["(", "+", "-"].contains symbol
  | _ => false

/-- A lexeme ends a sum or product. -/
def endsTerm : Lexeme → Bool
  | name _ | number _ => true
  | punctuator symbol => symbol = ")"
  | _ => false

/-- A name or a number ends at a sign, an operator or a parenthesis. -/
theorem endsBefore_symbol {x : Lexeme} (hx : x.endsTerm = true) {symbol : String}
    (h : symbol ∈ ["+", "-", "*", ")"]) : EndsBefore x (punctuator symbol) := by
  have hall : ∀ s ∈ ["+", "-", "*", ")"], s.toList.head?.any
      (fun c => endsName c && endsNumber false c && endsPunctuator ")" c) = true := by decide
  obtain ⟨c, hhead, hc⟩ := (Option.any_eq_true _ _).1 (hall symbol h)
  simp only [Bool.and_eq_true] at hc
  refine ⟨c, hhead, ?_⟩
  cases x with
  | name text => exact hc.1.1
  | number value => exact hc.1.2
  | punctuator s =>
      rw [of_decide_eq_true (hx : decide (s = ")") = true)]
      exact hc.2
  | string | chunk => cases hx

theorem endsBefore_of_class {p : Char → Bool} {y : Lexeme} {c : Char}
    (hhead : y.code.head? = some c) (hc : p c = true) {symbol : String}
    (h : (extenders symbol).any p = false) :
    EndsBefore (punctuator symbol) y := by
  have hnot : c ∉ extenders symbol := Lexeme.not_mem_of_class hc h
  exact ⟨c, hhead, by simpa [ends, endsPunctuator] using hnot⟩

/-- A symbol before a term runs into it only as one of two equal signs. -/
theorem adjoins_term {y : Lexeme} (hy : y.startsTerm = true) (harithmetic : y.IsArithmetic)
    {symbol : String} (h : symbol ∈ ["+", "-", "*", "("]) : Adjoins (punctuator symbol) y := by
  have hclass : ∀ s ∈ ["+", "-", "*", "("], (extenders s).any isNameStart = false ∧
      (extenders s).any Char.isDigit = false := by decide
  cases y with
  | name text =>
      obtain ⟨c, cs, htext, hc⟩ := exists_name_cons harithmetic
      exact .inl (endsBefore_of_class (by rw [code, htext]; rfl) hc (hclass symbol h).1)
  | number value =>
      obtain ⟨m, k, rfl, hcanonical⟩ := harithmetic
      obtain ⟨whole, part, hliteral, -⟩ := Binary64.exists_literal_toCode hcanonical
      obtain ⟨c, cs, htext, hc⟩ := hliteral.exists_cons
      exact .inl (endsBefore_of_class (by rw [code, htext]; rfl) hc (hclass symbol h).2)
  | punctuator s =>
      have hall : ∀ s ∈ ["+", "-", "*", "("], ∀ s' ∈ ["(", "+", "-"],
          s'.toList.head?.any (endsPunctuator s) = true ∨
            (punctuator s = punctuator s' && isSign (punctuator s)) = true := by decide
      rcases hall symbol h s (List.contains_iff_mem.1 hy) with hends | hsigns
      · exact .inl ((Option.any_eq_true _ _).1 hends)
      · exact .inr hsigns
  | string | chunk => cases hy

/-- Lexemes that form a sum or product: they are laid out so that no two of them
run together without a blank, apart from equal signs. -/
structure IsTerm (ls : List Lexeme) : Prop where
  arithmetic : ∀ x ∈ ls, x.IsArithmetic
  adjoins : ls.IsChain Adjoins
  starts : ∃ x xs, ls = x :: xs ∧ x.startsTerm = true
  ends : ∃ x, ls.getLast? = some x ∧ x.endsTerm = true

namespace IsTerm

variable {ls ms : List Lexeme} {symbol : String}

theorem isArithmetic_punctuator (h : symbol ∈ termSymbols) : (punctuator symbol).IsArithmetic :=
  List.mem_append_left _ h

theorem single {x : Lexeme} (hx : x.IsArithmetic) (hstarts : x.startsTerm = true)
    (hends : x.endsTerm = true) : IsTerm [x] :=
  ⟨by simpa using hx, .singleton x, ⟨x, [], rfl, hstarts⟩, ⟨x, rfl, hends⟩⟩

/-- A symbol before a sum or product. -/
theorem adjoins_cons (h : IsTerm ls) (hsymbol : symbol ∈ ["+", "-", "*", "("]) :
    (punctuator symbol :: ls).IsChain Adjoins := by
  obtain ⟨x, xs, rfl, hx⟩ := h.starts
  refine List.isChain_cons_cons.2 ⟨?_, h.adjoins⟩
  exact adjoins_term hx (h.arithmetic x List.mem_cons_self) hsymbol

/-- A sign before a term. -/
theorem sign (h : IsTerm ls) (hsymbol : symbol ∈ ["+", "-"]) :
    IsTerm (punctuator symbol :: ls) := by
  have hall : ∀ s ∈ ["+", "-"], s ∈ termSymbols ∧ s ∈ ["+", "-", "*", "("] ∧
      (punctuator s).startsTerm = true := by decide
  obtain ⟨harithmetic, hbefore, hstarts⟩ := hall symbol hsymbol
  obtain ⟨x, hlast, hx⟩ := h.ends
  refine ⟨?_, h.adjoins_cons hbefore, ⟨_, _, rfl, hstarts⟩, ⟨x, ?_, hx⟩⟩
  · exact List.forall_mem_cons.2 ⟨isArithmetic_punctuator harithmetic, h.arithmetic⟩
  · rw [List.getLast?_cons, hlast]
    rfl

/-- An operator between two terms. -/
theorem operation (hl : IsTerm ls) (hm : IsTerm ms) (hsymbol : symbol ∈ ["+", "-", "*"]) :
    IsTerm (ls ++ punctuator symbol :: ms) := by
  have hall : ∀ s ∈ ["+", "-", "*"], s ∈ termSymbols ∧ s ∈ ["+", "-", "*", "("] ∧
      s ∈ ["+", "-", "*", ")"] := by decide
  obtain ⟨harithmetic, hbefore, hafter⟩ := hall symbol hsymbol
  obtain ⟨x, xs, rfl, hx⟩ := hl.starts
  obtain ⟨y, hlast, hy⟩ := hl.ends
  obtain ⟨z, hlast', hz⟩ := hm.ends
  refine ⟨?_, ?_, ⟨x, _, rfl, hx⟩, ⟨z, ?_, hz⟩⟩
  · exact List.forall_mem_append.2 ⟨hl.arithmetic,
      List.forall_mem_cons.2 ⟨isArithmetic_punctuator harithmetic, hm.arithmetic⟩⟩
  · refine List.isChain_append.2 ⟨hl.adjoins, hm.adjoins_cons hbefore, fun a ha b hb => ?_⟩
    rw [hlast] at ha
    cases ha
    cases hb
    exact .inl (endsBefore_symbol hy hafter)
  · rw [List.getLast?_append, List.getLast?_cons, hlast']
    rfl

theorem paren (h : IsTerm ls) : IsTerm (punctuator "(" :: (ls ++ [punctuator ")"])) := by
  obtain ⟨x, xs, rfl, hx⟩ := h.starts
  obtain ⟨y, hlast, hy⟩ := h.ends
  refine ⟨?_, ?_, ⟨_, _, rfl, rfl⟩, ⟨punctuator ")", ?_, rfl⟩⟩
  · refine List.forall_mem_cons.2 ⟨isArithmetic_punctuator (by decide),
      List.forall_mem_append.2 ⟨h.arithmetic, ?_⟩⟩
    simpa using isArithmetic_punctuator (by decide)
  · rw [← List.cons_append]
    refine List.isChain_append.2 ⟨h.adjoins_cons (by decide), .singleton _, fun a ha b hb => ?_⟩
    rw [List.getLast?_cons, hlast] at ha
    cases ha
    cases hb
    exact .inl (endsBefore_symbol hy (by decide))
  · rw [← List.cons_append, List.getLast?_concat]

end IsTerm

end Lexeme

namespace Expr

/-- **The lexemes of an arithmetic expression form a term.** -/
theorem isTerm_lexemes : (t : Expr) → t.isArithmetic = true → t.IsSpelled → Lexeme.IsTerm t.lexemes
  | .name text, _, hspelled => .single hspelled rfl rfl
  | .number value, _, hspelled => .single hspelled rfl rfl
  | .binary left op right, h, hspelled => by
      simp only [isArithmetic, Bool.and_eq_true] at h
      exact (isTerm_lexemes left h.2.1 hspelled.1).operation (isTerm_lexemes right h.2.2 hspelled.2)
        (BinaryOp.symbol_mem_of_onIntegers? h.1)
  | .unary op operand, h, hspelled => by
      obtain ⟨hop, hoperand⟩ := Bool.and_eq_true_iff.1 h
      exact (isTerm_lexemes operand hoperand hspelled.2).sign
        (UnaryOp.symbol_mem_of_onIntegers? hop)
  | .paren inner, h, hspelled => (isTerm_lexemes inner h hspelled).paren

theorem filter_symbol {symbol : String} (h : symbol ∈ Lexeme.termSymbols) :
    symbol.toList.filter (!Text.isBlank ·) = symbol.toList :=
  Lexeme.filter_code (Lexeme.IsTerm.isArithmetic_punctuator h)

/-- The text of a sum or product without its blanks is that of its lexemes. -/
theorem filter_render : (t : Expr) → t.isArithmetic = true → t.IsSpelled →
    t.render.toList.filter (!Text.isBlank ·) = t.lexemes.flatMap Lexeme.code
  | .name text, _, hspelled => by
      simpa [render, lexemes, Lexeme.code] using Lexeme.filter_code (x := .name text) hspelled
  | .number value, _, hspelled => by
      simpa [render, lexemes, Lexeme.code] using Lexeme.filter_code (x := .number value) hspelled
  | .binary left op right, h, hspelled => by
      simp only [isArithmetic, Bool.and_eq_true] at h
      have hall : ∀ s ∈ ["+", "-", "*"], s ∈ Lexeme.termSymbols := by decide
      have hsymbol := filter_symbol (hall _ (BinaryOp.symbol_mem_of_onIntegers? h.1))
      have hspace : " ".toList.filter (!Text.isBlank ·) = [] := by decide
      simp only [render, lexemes, String.toList_append, List.filter_append, List.flatMap_append,
        List.flatMap_cons, filter_render left h.2.1 hspelled.1,
        filter_render right h.2.2 hspelled.2, hsymbol, hspace, List.nil_append, List.append_assoc,
        Lexeme.code]
  | .unary op operand, h, hspelled => by
      obtain ⟨hop, hoperand⟩ := Bool.and_eq_true_iff.1 h
      have hall : ∀ s ∈ ["+", "-"], s ∈ Lexeme.termSymbols := by decide
      have hsymbol := filter_symbol (hall _ (UnaryOp.symbol_mem_of_onIntegers? hop))
      simp only [render, lexemes, String.toList_append, List.filter_append, List.flatMap_cons,
        filter_render operand hoperand hspelled.2, hsymbol, Lexeme.code]
  | .paren inner, h, hspelled => by
      have hopening := filter_symbol (by decide : "(" ∈ Lexeme.termSymbols)
      have hclosing := filter_symbol (by decide : ")" ∈ Lexeme.termSymbols)
      simp only [render, lexemes, String.toList_append, List.filter_append, List.flatMap_cons,
        List.flatMap_append, List.flatMap_nil, List.append_nil, List.append_assoc, hopening,
        hclosing, filter_render inner h hspelled, Lexeme.code]

/-! ### Reading without blanks

Only equal signs run together. Where two of them meet, the text is no expression;
otherwise it is read as with its blanks.
-/

variable {env : String → Int} {l r t : Expr} {v : Int}

/-- The lexemes of an expression with a value. -/
def isValued : Lexeme → Bool
  | .name text => !reservedWords.contains text
  | .number _ => true
  | .punctuator symbol => Lexeme.termSymbols.contains symbol
  | _ => false

/-- An expression with a value has no reserved words in it. -/
theorem isValued_of_value? : (t : Expr) → {v : Int} → t.value? env = some v →
    t.lexemes.all isValued = true
  | .name text, v, h => by
      rw [value?] at h
      split at h
      · cases h
      · rename_i hfree
        simpa [lexemes, isValued] using hfree
  | .number value, _, _ => rfl
  | .binary left op right, v, h => by
      obtain ⟨f, a, b, hop, hleft, hright, -⟩ := value?_binary_eq_some_iff.1 h
      have hall : ∀ s ∈ ["+", "-", "*"], isValued (.punctuator s) = true := by decide
      have hsymbol := hall _ (BinaryOp.symbol_mem_of_onIntegers? (Option.isSome_of_eq_some hop))
      rw [lexemes, List.all_append, List.all_cons, isValued_of_value? left hleft, hsymbol,
        isValued_of_value? right hright]
      rfl
  | .unary op operand, v, h => by
      obtain ⟨f, a, hop, hoperand, -⟩ := value?_unary_eq_some_iff.1 h
      have hall : ∀ s ∈ ["+", "-"], isValued (.punctuator s) = true := by decide
      have hsymbol := hall _ (UnaryOp.symbol_mem_of_onIntegers? (Option.isSome_of_eq_some hop))
      rw [lexemes, List.all_cons, isValued_of_value? operand hoperand, hsymbol]
      rfl
  | .paren inner, v, h => by
      rw [lexemes, List.all_cons, List.all_append, isValued_of_value? inner h]
      decide

/-- None of the names among lexemes is reserved. -/
def HaveFreeNames (ls : List Lexeme) : Prop :=
  ∀ text, .name text ∈ ls → reservedWords.contains text = false

theorem HaveFreeNames.mono {ls ms : List Lexeme} (h : HaveFreeNames ms) (hsubset : ls ⊆ ms) :
    HaveFreeNames ls :=
  fun text htext => h text (hsubset htext)

theorem haveFreeNames_of_value? (h : t.value? env = some v) : HaveFreeNames t.lexemes := by
  intro text htext
  have hname := List.all_eq_true.1 (isValued_of_value? t h) _ htext
  simpa [isValued] using hname

/-- There are no templates in arithmetic. -/
theorem areFlat_of_isArithmetic {ls : List Lexeme} (h : ∀ x ∈ ls, x.IsArithmetic) : AreFlat ls := by
  intro x hx
  have harithmetic := h x hx
  cases x with
  | name | number => rfl
  | punctuator symbol =>
      have hall : ∀ s ∈ Lexeme.arithmeticSymbols, (Lexeme.punctuator s).isFlat = true := by decide
      exact hall symbol harithmetic
  | string | chunk => cases harithmetic

/-- The text of a sum or product without blanks is read as the sum or product if no
two equal signs meet in it. -/
theorem read_code (harithmetic : ∀ x ∈ t.lexemes, x.IsArithmetic)
    (hadjoins : t.lexemes.IsChain Lexeme.Adjoins) (hordered : t.isOrdered = true)
    (hsigns : Lexeme.signsApart t.lexemes = true) :
    read (String.ofList (t.lexemes.flatMap Lexeme.code)) = some t := by
  have hread := (isRead_of_isOrdered t hordered).whole ends_nil
  rw [List.append_nil] at hread
  rw [read, String.toList_ofList, Lexeme.scan_flatMap_code harithmetic hadjoins,
    Lexeme.fuse_of_signsApart hsigns, Option.bind_some, hread]

/-- The text of a sum or product without blanks is read with a value exactly if no
two equal signs meet in it, and then with its own. -/
theorem value?_read_code (env : String → Int) (v : Int)
    (harithmetic : ∀ x ∈ t.lexemes, x.IsArithmetic)
    (hadjoins : t.lexemes.IsChain Lexeme.Adjoins)
    (hordered : HaveFreeNames t.lexemes → t.isOrdered = true) :
    (read (String.ofList (t.lexemes.flatMap Lexeme.code))).bind (value? env) = some v ↔
      Lexeme.signsApart t.lexemes = true ∧ t.value? env = some v := by
  constructor
  · intro h
    obtain ⟨w, hread, hvalue⟩ := Option.bind_eq_some_iff.1 h
    -- What is read has the lexemes of the text, among which nothing but `++` and `--` is new.
    have hscan := Lexeme.scan_flatMap_code harithmetic hadjoins 0
    have hlexemes : w.lexemes = Lexeme.fuse t.lexemes :=
      lexemes_of_read (by rw [String.toList_ofList, hscan])
        (areFlat_of_isArithmetic (Lexeme.isArithmetic_of_mem_fuse harithmetic)) hread
    have hvalued := List.all_eq_true.1 (isValued_of_value? w hvalue)
    have hsigns : Lexeme.signsApart t.lexemes = true := by
      refine Bool.not_eq_false _ |>.mp fun hmeet => ?_
      obtain ⟨x, hx, hmem⟩ := Lexeme.exists_twice_mem_fuse hmeet
      rw [← hlexemes] at hmem
      rcases Bool.or_eq_true_iff.1 hx with hx | hx
      · rw [of_decide_eq_true hx] at hmem
        exact absurd (hvalued _ hmem) (by decide)
      · rw [of_decide_eq_true hx] at hmem
        exact absurd (hvalued _ hmem) (by decide)
    rw [Lexeme.fuse_of_signsApart hsigns] at hlexemes
    have hfree := haveFreeNames_of_value? hvalue
    rw [hlexemes] at hfree
    rw [read_code harithmetic hadjoins (hordered hfree) hsigns] at hread
    cases hread
    exact ⟨hsigns, hvalue⟩
  · rintro ⟨hsigns, hvalue⟩
    have hfree := haveFreeNames_of_value? hvalue
    rw [read_code harithmetic hadjoins (hordered hfree) hsigns, Option.bind_some, hvalue]

/-! ### The first sign

Dropping the minus at the front changes the sign of the first term and of no other
one.
-/

/-- An expression starts with a minus: it is one with an operand, or its left operand
starts with one. -/
inductive StartsWithMinus : Expr → Prop
  | neg (operand : Expr) : StartsWithMinus (.unary .neg operand)
  | left {left : Expr} (op : BinaryOp) (right : Expr) (h : StartsWithMinus left) :
    StartsWithMinus (.binary left op right)

/-- A minus at the front is the sign of the first operand. -/
theorem startsWithMinus_of_head : (t : Expr) → t.isArithmetic = true → t.IsSpelled →
    t.lexemes.head? = some (.punctuator "-") → t.StartsWithMinus
  | .name _, _, _, hhead | .number _, _, _, hhead => by cases hhead
  | .unary op operand, _, _, hhead => by
      have hsymbol : op.symbol = "-" := Lexeme.punctuator.inj (Option.some.inj hhead)
      cases op with
      | neg => exact .neg operand
      | pos | not => exact absurd hsymbol (by decide)
  | .binary left op right, h, hspelled, hhead => by
      simp only [isArithmetic, Bool.and_eq_true] at h
      obtain ⟨x, xs, hlexemes, -⟩ := (isTerm_lexemes left h.2.1 hspelled.1).starts
      rw [lexemes, hlexemes] at hhead
      exact .left op right
        (startsWithMinus_of_head left h.2.1 hspelled.1 (by rw [hlexemes]; exact hhead))
  | .paren _, _, _, hhead => by
      have hsymbol := Lexeme.punctuator.inj (Option.some.inj hhead)
      exact absurd hsymbol (by decide)

/-- An expression without the sign that it starts with. -/
def dropSign : Expr → Expr
  | .binary left op right => .binary (dropSign left) op right
  | .unary _ operand => operand
  | t => t

/-- The first term of a sum. -/
def firstTerm : Expr → Expr
  | .binary left .add _ | .binary left .sub _ => firstTerm left
  | t => t

/-- The expression without its sign is spelled by the other lexemes. -/
theorem lexemes_dropSign (h : t.StartsWithMinus) :
    t.lexemes = .punctuator "-" :: t.dropSign.lexemes := by
  induction h with
  | neg operand => rfl
  | left op right _ ih =>
      rw [lexemes, ih]
      rfl

theorem startsWithSign_of_startsWithMinus (h : t.StartsWithMinus) : t.startsWithSign = true := by
  have hrender : ∃ cs, t.render.toList = '-' :: cs := by
    induction h with
    | neg operand => exact ⟨operand.render.toList, by simp [render, UnaryOp.symbol]⟩
    | left op right _ ih =>
        obtain ⟨cs, hcs⟩ := ih
        refine ⟨cs ++ (" " ++ op.symbol ++ " " ++ right.render).toList, ?_⟩
        simp [render, hcs]
  obtain ⟨cs, hcs⟩ := hrender
  simp [startsWithSign, hcs]

/-- Behind the first minus stands no other one. -/
theorem exists_head_dropSign (h : t.StartsWithMinus) (harithmetic : t.isArithmetic = true)
    (hspelled : t.IsSpelled) :
    ∃ x xs, t.dropSign.lexemes = x :: xs ∧ x ≠ .punctuator "-" := by
  induction h with
  | neg operand =>
      obtain ⟨-, hoperand⟩ := Bool.and_eq_true_iff.1 harithmetic
      obtain ⟨x, xs, hlexemes, -⟩ := (isTerm_lexemes operand hoperand hspelled.2).starts
      refine ⟨x, xs, hlexemes, ?_⟩
      rintro rfl
      have hminus := startsWithMinus_of_head operand hoperand hspelled.2 (by rw [hlexemes]; rfl)
      have hsign := hspelled.1.resolve_left (by decide)
      rw [startsWithSign_of_startsWithMinus hminus] at hsign
      cases hsign
  | left op right _ ih =>
      simp only [isArithmetic, Bool.and_eq_true] at harithmetic
      obtain ⟨x, xs, hdrop, hx⟩ := ih harithmetic.2.1 hspelled.1
      exact ⟨x, _, by rw [dropSign, lexemes, hdrop]; rfl, hx⟩

/-- The sign at the front meets no other one, so dropping it changes nothing about
the others. -/
theorem signsApart_dropSign (h : t.StartsWithMinus) (harithmetic : t.isArithmetic = true)
    (hspelled : t.IsSpelled) :
    Lexeme.signsApart t.dropSign.lexemes = Lexeme.signsApart t.lexemes := by
  obtain ⟨x, xs, hdrop, hx⟩ := exists_head_dropSign h harithmetic hspelled
  rw [lexemes_dropSign h, hdrop, Lexeme.signsApart, decide_eq_false (Ne.symm hx)]
  rfl

/-- The sum or product of ordered expressions is ordered if its operands bind tightly
enough. -/
theorem isOrdered_binary_iff {op : BinaryOp} (hop : op.onIntegers?.isSome = true) :
    (Expr.binary l op r).isOrdered = true ↔
      (l.tier ≤ op.tier ∧ r.tier < op.tier) ∧ l.isOrdered = true ∧ r.isOrdered = true := by
  have hpow : op ≠ .pow := by
    rintro rfl
    cases hop
  simp only [isOrdered, takes, if_neg hpow, Bool.and_eq_true, decide_eq_true_eq]

/-- Without its sign an expression is grouped as before. -/
theorem isOrdered_dropSign (h : t.StartsWithMinus) (harithmetic : t.isArithmetic = true)
    (hordered : t.isOrdered = true) :
    t.dropSign.isOrdered = true ∧ t.dropSign.tier ≤ t.tier := by
  induction h with
  | neg operand =>
      obtain ⟨hbinary, hoperand⟩ := Bool.and_eq_true_iff.1 hordered
      exact ⟨hoperand, Nat.le_of_eq (tier_of_isBinary (by simpa [dropSign] using hbinary))⟩
  | left op right _ ih =>
      simp only [isArithmetic, Bool.and_eq_true] at harithmetic
      obtain ⟨⟨hleft, hright⟩, hl, hr⟩ := (isOrdered_binary_iff harithmetic.1).1 hordered
      obtain ⟨hdrop, htier⟩ := ih harithmetic.2.1 hl
      refine ⟨(isOrdered_binary_iff harithmetic.1).2 ⟨⟨?_, hright⟩, hdrop, hr⟩, Nat.le_refl _⟩
      exact Nat.le_trans htier hleft

theorem firstTerm_of_tier_lt (h : t.tier < 2) : t.firstTerm = t := by
  cases t with
  | binary left op right =>
      cases op with
      | add | sub => exact absurd h (Nat.lt_irrefl 2)
      | _ => rfl
  | _ => rfl

/-- The first minus belongs to the first term: a sum without it differs by twice the
value of that term. -/
theorem value?_dropSign (h : t.StartsWithMinus) (hordered : t.isOrdered = true)
    (hvalue : t.value? env = some v) :
    ∃ a, t.firstTerm.value? env = some a ∧ t.dropSign.value? env = some (v - 2 * a) := by
  induction h generalizing v with
  | neg operand =>
      obtain ⟨f, a, hf, hoperand, hv⟩ := value?_unary_eq_some_iff.1 hvalue
      cases hf
      have hneg : -a = v := hv
      refine ⟨v, hvalue, hoperand.trans (congrArg some ?_)⟩
      omega
  | left op right _ ih =>
      obtain ⟨f, a, b, hf, hleft, hright, hv⟩ := value?_binary_eq_some_iff.1 hvalue
      obtain ⟨⟨htier, -⟩, hl, -⟩ := (isOrdered_binary_iff (Option.isSome_of_eq_some hf)).1 hordered
      obtain ⟨c, hfirst, hdrop⟩ := ih hl hleft
      cases op with
      | add =>
          cases hf
          have hsum : a + b = v := hv
          refine ⟨c, hfirst, value?_binary_eq_some_iff.2 ⟨_, _, b, rfl, hdrop, hright, ?_⟩⟩
          omega
      | sub =>
          cases hf
          have hdifference : a - b = v := hv
          refine ⟨c, hfirst, value?_binary_eq_some_iff.2 ⟨_, _, b, rfl, hdrop, hright, ?_⟩⟩
          omega
      | mul =>
          -- The left factor is no sum, so all of it changes its sign.
          cases hf
          have hproduct : a * b = v := hv
          rw [firstTerm_of_tier_lt (Nat.lt_of_le_of_lt htier (by decide)), hleft] at hfirst
          cases hfirst
          refine ⟨v, hvalue, value?_binary_eq_some_iff.2 ⟨_, _, b, rfl, hdrop, hright, ?_⟩⟩
          rw [← hproduct, Int.sub_mul, Int.mul_assoc]
      | _ => cases hf

/-- The text behind the first minus is read as the negative of a sum or product
exactly if the minus covers all of it. -/
theorem value?_read_dropSign (h : t.StartsWithMinus) (harithmetic : t.isArithmetic = true)
    (hspelled : t.IsSpelled) (hordered : HaveFreeNames t.lexemes → t.isOrdered = true)
    (hvalue : HaveFreeNames t.lexemes → t.value? env = some v) :
    (read (String.ofList (t.dropSign.lexemes.flatMap Lexeme.code))).bind (value? env) = some (-v) ↔
      HaveFreeNames t.lexemes ∧ Lexeme.signsApart t.lexemes = true ∧
        t.firstTerm.value? env = some v := by
  have hlexemes := lexemes_dropSign h
  have hterm := isTerm_lexemes t harithmetic hspelled
  have hfree (hdrop : HaveFreeNames t.dropSign.lexemes) : HaveFreeNames t.lexemes := by
    intro text htext
    rw [hlexemes] at htext
    exact hdrop text ((List.mem_cons.1 htext).resolve_left (by simp))
  have harithmetic' : ∀ x ∈ t.dropSign.lexemes, x.IsArithmetic := fun x hx =>
    hterm.arithmetic x (by rw [hlexemes]; exact List.mem_cons_of_mem _ hx)
  have hadjoins : t.dropSign.lexemes.IsChain Lexeme.Adjoins := by
    have htail := hterm.adjoins.tail
    rw [hlexemes] at htail
    exact htail
  rw [value?_read_code _ _ harithmetic' hadjoins fun hdrop =>
    (isOrdered_dropSign h harithmetic (hordered (hfree hdrop))).1,
    signsApart_dropSign h harithmetic hspelled]
  constructor
  · rintro ⟨hsigns, hdrop⟩
    have hfree' := hfree (haveFreeNames_of_value? hdrop)
    obtain ⟨a, hfirst, hdrop'⟩ := value?_dropSign h (hordered hfree') (hvalue hfree')
    rw [hdrop] at hdrop'
    have ha : -v = v - 2 * a := Option.some.inj hdrop'
    refine ⟨hfree', hsigns, hfirst.trans (congrArg some ?_)⟩
    omega
  · rintro ⟨hfree', hsigns, hfirst⟩
    obtain ⟨a, hfirst', hdrop⟩ := value?_dropSign h (hordered hfree') (hvalue hfree')
    rw [hfirst] at hfirst'
    have ha : v = a := Option.some.inj hfirst'
    refine ⟨hsigns, hdrop.trans (congrArg some ?_)⟩
    omega

end Expr

end Target

end Offside
