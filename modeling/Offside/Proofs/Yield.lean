import Mathlib.Data.List.Forall2
import Offside.Ast.Equality
import Offside.Proofs.Derivation.Nested

/-!
# Offside.Proofs.Yield

Reading **drops and invents nothing**. The yield of a program is the row of marks
that its tokens have to spell, in their order: keywords, names, operators,
brackets, commas, colons and dots, and the literals by their values. Main
statement: `yield_of_ofTokens`, by which the tokens of a program spell its yield
once those that the grammar passes over are left out.

Design points:

* The grammar passes over the layout, semicolons, and the comma before the
  bracket that closes a list (`essential`). Whether a comma is passed over is seen
  from the token after it, so `Spelled` says what tokens spell in front of any
  others.
* An empty `else` block of a loop would leave no trace in the program. It takes
  an `indent` without text after it, which `opensOnText` rules out.
* A module is named by one text, the dots between its parts included; a part with
  a dot in it could not be told from two.
-/

namespace Offside

/-! ### Marks -/

/-- The keywords of the grammar. -/
def Grammar.words : List String :=
  ["False", "None", "True", "and", "break", "class", "continue", "def", "elif", "else", "for", "if",
    "import", "in", "not", "or", "pass", "return", "while"]

/-- What one token of a program says. -/
inductive Mark where
  | keyword (text : String) (used : text ∈ Grammar.words := by decide)
  | name (text : String)
  | operator (symbol : String)
  | delimiter (symbol : String)
  | dot
  | number (value : Binary64)
  | string (value : String)
  | fstring (quasis : List String) (expressions : List Expr)
  /-- A binary operator and the line on which it stands. -/
  | binary (op : BinaryOp) (line : Nat)

/-- A token spells a mark. The text of a number is read, the text of a string is
unescaped, and the text of an f-string is taken apart. -/
def Token.Spells (t : Token) : Mark → Prop
  | .keyword text _ => t.kind = .keyword ∧ t.text = text
  | .name text => t.kind = .identifier ∧ t.text = text
  | .operator symbol => t.kind = .operator ∧ t.text = symbol
  | .delimiter symbol => t.kind = .delimiter ∧ t.text = symbol
  | .dot => t.kind = .dot
  | .number value => t.kind = .number ∧ Numeral.read? t.text = some value
  | .string value => t.kind = .string ∧ Text.unescape t.text = value
  | .fstring quasis expressions =>
    t.kind = .fstring ∧ FString.read t.text.toList t.line = .ok (quasis, expressions)
  | .binary op line =>
    (t.kind = .operator ∨ t.kind = .keyword ∧ (op = .and ∨ op = .or)) ∧ t.text = op.symbol ∧
      t.line = line

/-! ### The yield of a program -/

/-- The mark of a literal. -/
def Literal.mark : Literal → Mark
  | .number value => .number value
  | .string value => .string value
  | .boolean true => .keyword "True"
  | .boolean false => .keyword "False"
  | .null => .keyword "None"

/-- The mark of a unary operator. -/
def UnaryOp.mark : UnaryOp → Mark
  | .neg => .operator "-"
  | .pos => .operator "+"
  | .not => .keyword "not"

namespace Expr

mutual

/-- The marks of an expression. -/
def yield : Expr → List Mark
  | .ident name => [.name name]
  | .literal value => [value.mark]
  | .fstring quasis expressions => [.fstring quasis expressions]
  | .binary left op right line => yield left ++ .binary op line :: yield right
  | .unary op operand => op.mark :: yield operand
  | .attr value name => yield value ++ [.dot, .name name]
  | .call callee args => yield callee ++ .delimiter "(" :: (yieldAll args ++ [.delimiter ")"])
  | .index target position =>
    yield target ++ .delimiter "[" :: (yield position ++ [.delimiter "]"])
  | .list items => .delimiter "[" :: (yieldAll items ++ [.delimiter "]"])
  | .group inner => .delimiter "(" :: (yield inner ++ [.delimiter ")"])

/-- The marks of expressions with commas between them. -/
def yieldAll : List Expr → List Mark
  | [] => []
  | e :: es => yield e ++ yieldMore es

/-- The marks of expressions with a comma before each of them. -/
def yieldMore : List Expr → List Mark
  | [] => []
  | e :: es => .delimiter "," :: (yield e ++ yieldMore es)

end

end Expr

/-- The marks of names with a mark between them. -/
def Mark.ofNames (separator : Mark) : List String → List Mark
  | [] => []
  | first :: others => .name first :: others.flatMap fun other => [separator, .name other]

/-- The marks of the name of a module: its parts and the dots between them. -/
def Mark.ofDotted (name : String) : List Mark :=
  ofNames .dot ((name.toList.splitOn '.').map String.ofList)

namespace Stmt

mutual

/-- The marks of a statement. -/
def yield : Stmt → List Mark
  | .assign target value => target.yield ++ .operator "=" :: value.yield
  | .augAssign target op value => target.yield ++ .operator op.symbol :: value.yield
  | .expr value => value.yield
  | .returnValue none => [.keyword "return"]
  | .returnValue (some value) => .keyword "return" :: value.yield
  | .functionDef name params body =>
    .keyword "def" :: .name name :: .delimiter "(" ::
      (Mark.ofNames (.delimiter ",") params ++ .delimiter ")" :: .delimiter ":" :: yieldBlock body)
  | .ifElse condition body alternate =>
    .keyword "if" ::
      (condition.yield ++ .delimiter ":" :: (yieldBlock body ++ yieldAlternate alternate))
  | .whileLoop condition body orelse =>
    .keyword "while" :: (condition.yield ++ .delimiter ":" :: (yieldBlock body ++
      if orelse.isEmpty then [] else .keyword "else" :: .delimiter ":" :: yieldBlock orelse))
  | .forLoop target iter body orelse =>
    .keyword "for" :: (target.yield ++ .keyword "in" :: (iter.yield ++
      .delimiter ":" :: (yieldBlock body ++
        if orelse.isEmpty then [] else .keyword "else" :: .delimiter ":" :: yieldBlock orelse)))
  | .classDef name body => .keyword "class" :: .name name :: .delimiter ":" :: yieldBlock body
  | .importModule path => .keyword "import" :: Mark.ofDotted (dottedName path)
  | .breakLoop => [.keyword "break"]
  | .continueLoop => [.keyword "continue"]
  | .pass => [.keyword "pass"]

/-- The marks of the rest of a conditional. -/
def yieldAlternate : Alternate → List Mark
  | .none => []
  | .elseIf condition body alternate =>
    .keyword "elif" ::
      (condition.yield ++ .delimiter ":" :: (yieldBlock body ++ yieldAlternate alternate))
  | .otherwise body => .keyword "else" :: .delimiter ":" :: yieldBlock body

/-- The marks of statements. -/
def yieldBlock : List Stmt → List Mark
  | [] => []
  | s :: ss => yield s ++ yieldBlock ss

end

end Stmt

/-- The marks of a program. -/
def Program.yield (p : Program) : List Mark := Stmt.yieldBlock p.statements

/-! ### The tokens that count -/

namespace Token

/-- The grammar passes over a token of the layout, a semicolon, and the comma
before the bracket that closes a list. -/
def isPassed (t : Token) (after : List Token) : Bool :=
  t.kind.isLayout || t.is .delimiter ";" ||
    (t.is .delimiter "," && after.head?.any (·.is .delimiter "]"))

/-- The tokens that the grammar does not pass over. -/
def essential : List Token → List Token
  | [] => []
  | t :: ts => if t.isPassed ts then essential ts else t :: essential ts

/-- No name among the tokens has a dot in it. -/
def dotless (ts : List Token) : Bool :=
  ts.all fun t => t.kind ≠ .identifier || !t.text.toList.contains '.'

end Token

namespace Grammar

open Token (essential opensOnText dotless)

/-- Before any other tokens, those of `ts` that count spell the marks. -/
def Spelled (marks : List Mark) (ts : List Token) : Prop :=
  ∃ kept, (∀ rest, essential (ts ++ rest) = kept ++ essential rest) ∧
    List.Forall₂ Token.Spells kept marks

namespace Spelled

variable {marks marks' : List Mark} {m : Mark} {t u : Token} {ts us : List Token}

theorem nil : Spelled [] [] := ⟨[], fun _ => rfl, .nil⟩

/-- Tokens that count are told from the others token by token, with one exception:
whether a comma counts depends on the token after it. So the marks of two parts are
put together only before any other tokens. -/
theorem append (hts : Spelled marks ts) (hus : Spelled marks' us) :
    Spelled (marks ++ marks') (ts ++ us) := by
  obtain ⟨first, hfirst, hmarks⟩ := hts
  obtain ⟨second, hsecond, hmarks'⟩ := hus
  refine ⟨first ++ second, fun rest => ?_, List.rel_append hmarks hmarks'⟩
  rw [List.append_assoc, hfirst, hsecond, List.append_assoc]

theorem cons (ht : Spelled [m] [t]) (hts : Spelled marks ts) : Spelled (m :: marks) (t :: ts) :=
  ht.append hts

/-- A token that the grammar passes over spells nothing. -/
theorem pass (ht : ∀ after, t.isPassed after = true) (hts : Spelled marks ts) :
    Spelled marks (t :: ts) := by
  obtain ⟨kept, hkept, hmarks⟩ := hts
  refine ⟨kept, fun rest => ?_, hmarks⟩
  rw [List.cons_append, essential, if_pos (ht _), hkept]

theorem of_spells (h : t.Spells m) (ht : ∀ after, t.isPassed after = false) :
    Spelled [m] [t] := by
  refine ⟨[t], fun rest => ?_, .cons h .nil⟩
  rw [List.singleton_append, essential, if_neg (by simp [ht])]
  rfl

/-- A token that is no delimiter and not part of the layout counts. -/
theorem of_kind (h : t.Spells m) (hlayout : t.kind.isLayout = false)
    (hdelimiter : t.kind ≠ .delimiter) : Spelled [m] [t] := by
  refine of_spells h fun after => ?_
  rw [Token.isPassed, hlayout]
  simp [Token.is, hdelimiter]

/-- A keyword that the grammar uses. -/
theorem keyword {text : String} (h : t.is .keyword text = true) (used : text ∈ Grammar.words) :
    Spelled [.keyword text used] [t] := by
  obtain ⟨hkind, htext⟩ := Token.is_iff.1 h
  exact of_kind ⟨hkind, htext⟩ (by simp [hkind]) (by simp [hkind])

theorem name (h : t.kind = .identifier) : Spelled [.name t.text] [t] :=
  of_kind ⟨h, rfl⟩ (by simp [h]) (by simp [h])

theorem dot (h : t.kind = .dot) : Spelled [.dot] [t] :=
  of_kind h (by simp [h]) (by simp [h])

/-- All delimiters count but semicolons, and commas before a bracket. -/
theorem delimiter {text : String} (h : t.is .delimiter text = true) (hsemicolon : text ≠ ";")
    (hcomma : text ≠ ",") : Spelled [.delimiter text] [t] := by
  obtain ⟨hkind, htext⟩ := Token.is_iff.1 h
  refine of_spells ⟨hkind, htext⟩ fun after => ?_
  simp [Token.isPassed, Token.is, hkind, htext, hsemicolon, hcomma]

/-- A comma counts, unless a bracket closes after it. -/
theorem comma (h : t.is .delimiter "," = true) (hu : u.is .delimiter "]" = false)
    (hus : Spelled marks (u :: us)) : Spelled (.delimiter "," :: marks) (t :: u :: us) := by
  obtain ⟨kept, hkept, hmarks⟩ := hus
  refine ⟨t :: kept, fun rest => ?_, .cons (Token.is_iff.1 h) hmarks⟩
  have hsemicolon : t.is .delimiter ";" = false := by simp [Token.is, (Token.is_iff.1 h).2]
  have hcounts : t.isPassed (u :: us ++ rest) = false := by
    rw [Token.isPassed, isLayout_of_is h rfl, hsemicolon, h]
    show (false || false || (true && u.is .delimiter "]")) = false
    rw [hu]
    rfl
  rw [List.cons_append, essential, hcounts, hkept]
  rfl

/-- A comma before the bracket that closes a list is passed over. -/
theorem lastComma (h : t.is .delimiter "," = true) (hu : u.is .delimiter "]" = true)
    (hus : Spelled marks (u :: us)) : Spelled marks (t :: u :: us) := by
  obtain ⟨kept, hkept, hmarks⟩ := hus
  refine ⟨kept, fun rest => ?_, hmarks⟩
  rw [List.cons_append, essential, if_pos (by simp [Token.isPassed, h, hu]), hkept]

end Spelled

/-! ### Expressions

Each rule of the grammar accounts for its own tokens.
-/

/-- Constants are keywords that stand for a literal. -/
theorem spelled_constant {t : Token} {value : Literal} (ht : t.kind = .keyword)
    (h : constant? t.text = some value) : Spelled [value.mark] [t] := by
  unfold constant? at h
  split at h
  · rename_i htext
    obtain rfl := Option.some.inj h
    exact .keyword (Token.is_iff.2 ⟨ht, htext⟩) (by decide)
  · split at h
    · rename_i htext
      obtain rfl := Option.some.inj h
      exact .keyword (Token.is_iff.2 ⟨ht, htext⟩) (by decide)
    · split at h
      · rename_i htext
        obtain rfl := Option.some.inj h
        exact .keyword (Token.is_iff.2 ⟨ht, htext⟩) (by decide)
      · cases h

theorem spelled_operator {t : Token} {symbol : String} (h : t.is .operator symbol = true) :
    Spelled [.operator symbol] [t] := by
  obtain ⟨hkind, htext⟩ := Token.is_iff.1 h
  exact .of_kind ⟨hkind, htext⟩ (by simp [hkind]) (by simp [hkind])

/-- A unary operator is spelled by its symbol, `not` by its keyword. -/
theorem spelled_unaryOp {t : Token} {op : UnaryOp} (h : unaryOp? t = some op) :
    Spelled [op.mark] [t] := by
  unfold unaryOp? at h
  split at h
  · rename_i ht
    obtain rfl := Option.some.inj h
    exact spelled_operator ht
  · split at h
    · rename_i ht
      obtain rfl := Option.some.inj h
      exact spelled_operator ht
    · split at h
      · rename_i ht
        obtain rfl := Option.some.inj h
        exact .keyword ht (by decide)
      · cases h

theorem spelled_binaryOp {t : Token} {op : BinaryOp} (h : binaryOp? t = some op) :
    Spelled [.binary op t.line] [t] := by
  unfold binaryOp? at h
  split at h
  · rename_i hkind
    have htext : op.symbol = t.text := by simpa using List.find?_some h
    exact .of_kind ⟨.inl hkind, htext.symm, rfl⟩ (by simp [hkind]) (by simp [hkind])
  · rename_i hkind
    have hword : t.text = op.symbol ∧ (op = .and ∨ op = .or) := by
      split at h
      · rename_i htext
        obtain rfl := Option.some.inj h
        exact ⟨htext, .inl rfl⟩
      · split at h
        · rename_i htext
          obtain rfl := Option.some.inj h
          exact ⟨htext, .inr rfl⟩
        · cases h
    exact .of_kind ⟨.inr ⟨hkind, hword.2⟩, hword.1, rfl⟩ (by simp [hkind]) (by simp [hkind])
  · cases h

/-- The marks of a phrase. -/
def Phrase.yield : Phrase → List Mark
  | .expression _ e | .unary e | .primary e | .atom e => e.yield
  | .arguments es => Expr.yieldAll es ++ [.delimiter ")"]
  | .moreArguments es => Expr.yieldMore es ++ [.delimiter ")"]
  | .items es => Expr.yieldAll es ++ [.delimiter "]"]
  | .moreItems es => Expr.yieldMore es ++ [.delimiter "]"]

/-- After a comma comes an expression, which no bracket closes. -/
theorem Forms.spelled_comma {r : Reader} {e : Expr} {m : Nat} {comma : Token} {marks : List Mark}
    {ts us : List Token} (hcomma : comma.is .delimiter "," = true)
    (h : Forms r (.expression m e) ts) (hspelled : Spelled marks (ts ++ us)) :
    Spelled (.delimiter "," :: marks) (comma :: (ts ++ us)) := by
  obtain ⟨t, vs, rfl, hstart⟩ := h.exists_cons
  have hopen : t.is .delimiter "]" = false :=
    is_eq_false_of_class (show startsExpression t = true from hstart) _ _ rfl
  exact .comma hcomma hopen hspelled

/-- **The tokens that form a phrase spell its yield.** By induction on the derivation. -/
theorem Forms.spelled {ph : Phrase} {ts : List Token} (h : Forms Program.fstringReader ph ts) :
    Spelled ph.yield ts := by
  induction h with
  | number ht hvalue => exact .of_kind ⟨ht, hvalue⟩ (by simp [ht]) (by simp [ht])
  | string ht => exact .of_kind ⟨ht, rfl⟩ (by simp [ht]) (by simp [ht])
  | fstring ht hread => exact .of_kind ⟨ht, hread⟩ (by simp [ht]) (by simp [ht])
  | ident ht => exact .name ht
  | constant ht hvalue => exact spelled_constant ht hvalue
  | group hopening _ hclosing ih =>
      exact .cons (.delimiter hopening (by decide) (by decide))
        (ih.append (.delimiter hclosing (by decide) (by decide)))
  | list hopening _ ih => exact .cons (.delimiter hopening (by decide) (by decide)) ih
  | ofAtom _ ih | ofPrimary _ ih | ofUnary _ ih => exact ih
  | attr _ hdot hname ih => exact ih.append (.cons (.dot hdot) (.name hname))
  | call _ hopening _ ihbase ihargs =>
      exact ihbase.append (.cons (.delimiter hopening (by decide) (by decide)) ihargs)
  | index _ hopening _ hclosing ihbase ihposition =>
      exact ihbase.append (.cons (.delimiter hopening (by decide) (by decide))
        (ihposition.append (.delimiter hclosing (by decide) (by decide))))
  | unary hop _ ih => exact .cons (spelled_unaryOp hop) ih
  | binary _ _ hop _ ihleft ihright => exact ihleft.append (.cons (spelled_binaryOp hop) ihright)
  | noArguments hclosing | endArguments hclosing | noItems hclosing | endItems hclosing =>
      exact .delimiter hclosing (by decide) (by decide)
  | argument _ _ ihe ihes | item _ _ ihe ihes =>
      rw [Phrase.yield, Expr.yieldAll, List.append_assoc]
      exact ihe.append ihes
  | nextArgument hcomma he _ ihe ihes =>
      have hargs := ihe.append ihes
      rw [Phrase.yield, Expr.yieldMore, List.cons_append, List.append_assoc]
      exact he.spelled_comma hcomma hargs
  | nextItems hcomma hitems ih =>
      cases hitems with
      | noItems hclosing => exact .lastComma hcomma hclosing ih
      | item he _ => exact he.spelled_comma hcomma ih

/-! ### Simple statements -/

/-- A name without dots is one part of a module path. -/
theorem not_mem_of_dotless {ts : List Token} {t : Token} (h : dotless ts = true) (ht : t ∈ ts)
    (hkind : t.kind = .identifier) : '.' ∉ t.text.toList := by
  have hname := List.all_eq_true.1 h t ht
  simpa [hkind] using hname

theorem MoreParts.spelled {parts : List String} {ts : List Token} (h : MoreParts parts ts) :
    Spelled (parts.flatMap fun other => [.dot, .name other]) ts := by
  induction h with
  | done => exact .nil
  | next hdot hpart _ ih => exact .cons (.dot hdot) (.cons (.name hpart) ih)

theorem MoreParts.not_mem {parts : List String} {ts : List Token} (h : MoreParts parts ts)
    (hts : dotless ts = true) : ∀ part ∈ parts, '.' ∉ part.toList := by
  induction h with
  | done => simp
  | @next dot part parts ts _ hpart _ ih =>
      have hlater : dotless ts = true := by
        simp only [dotless, List.all_cons, Bool.and_eq_true] at hts
        exact hts.2.2
      refine List.forall_mem_cons.2 ⟨not_mem_of_dotless hts (by simp) hpart, ih hlater⟩

/-- The parts of a dotted name are found again where no part has a dot. -/
theorem ofDotted_dottedName {path : List String} (hne : path ≠ [])
    (h : ∀ part ∈ path, '.' ∉ part.toList) :
    Mark.ofDotted (dottedName path) = Mark.ofNames .dot path := by
  have hparts : ∀ part ∈ path.map String.toList, '.' ∉ part := by simpa using h
  rw [Mark.ofDotted, dottedName, String.toList_intercalate,
    show ".".toList = ['.'] from rfl, List.splitOn_intercalate _ hparts (by simpa using hne)]
  simp

/-- The sign of an assignment is the one thing that tells its forms apart. -/
theorem spelled_assignment {t : Token} {op : Option AugmentedOp} (h : assignment? t = some op) :
    ∃ symbol, Spelled [.operator symbol] [t] ∧
      ∀ target value, (assigned target value op).yield =
        target.yield ++ .operator symbol :: value.yield := by
  unfold assignment? at h
  split at h
  · rename_i hkind
    split at h
    · rename_i op' hop
      obtain rfl := Option.some.inj h
      have htext : op'.symbol = t.text := by simpa using List.find?_some hop
      exact ⟨op'.symbol, spelled_operator (Token.is_iff.2 ⟨hkind, htext.symm⟩), fun _ _ => rfl⟩
    · split at h
      · rename_i htext
        obtain rfl := Option.some.inj h
        exact ⟨"=", spelled_operator (Token.is_iff.2 ⟨hkind, htext⟩), fun _ _ => rfl⟩
      · cases h
  · cases h

/-- The tokens that form a simple statement spell its yield. -/
theorem Simple.spelled {s : Stmt} {ts : List Token} (h : Simple Program.fstringReader s ts)
    (hts : dotless ts = true) : Spelled s.yield ts := by
  cases h with
  | bareReturn ht | breakLoop ht | continueLoop ht | pass ht => exact .keyword ht (by decide)
  | returnValue ht hvalue => exact .cons (.keyword ht (by decide)) hvalue.spelled
  | @importModule t first parts ts ht hfirst hparts =>
      have hlater : dotless ts = true := by
        simp only [dotless, List.all_cons, Bool.and_eq_true] at hts
        exact hts.2.2
      have hdots : ∀ part ∈ first.text :: parts, '.' ∉ part.toList :=
        List.forall_mem_cons.2 ⟨not_mem_of_dotless hts (by simp) hfirst, hparts.not_mem hlater⟩
      rw [Stmt.yield, ofDotted_dottedName (by simp) hdots]
      exact .cons (.keyword ht (by decide)) (.cons (.name hfirst) hparts.spelled)
  | expr hvalue => exact hvalue.spelled
  | assignment htarget hop hvalue _ =>
      obtain ⟨symbol, hsymbol, hyield⟩ := spelled_assignment hop
      rw [hyield]
      exact htarget.spelled.append (.cons hsymbol hvalue.spelled)

/-! ### Programs -/

theorem MoreParameters.spelled {names : List String} {ts : List Token}
    (h : MoreParameters names ts) :
    Spelled (names.flatMap (fun other => [.delimiter ",", .name other]) ++ [.delimiter ")"]) ts := by
  induction h with
  | done hclosing => exact .delimiter hclosing (by decide) (by decide)
  | next hcomma hname _ ih =>
      have hnames := Spelled.cons (.name hname) ih
      exact .comma hcomma (by simp [Token.is, hname]) hnames

theorem Parameters.spelled {names : List String} {ts : List Token} (h : Parameters names ts) :
    Spelled (Mark.ofNames (.delimiter ",") names ++ [.delimiter ")"]) ts := by
  cases h with
  | none hclosing => exact .delimiter hclosing (by decide) (by decide)
  | some hname hnames => exact .cons (.name hname) hnames.spelled

/-- The marks of a piece of a program. -/
def Piece.yield : Piece → List Mark
  | .statement s => s.yield
  | .block ss => .delimiter ":" :: Stmt.yieldBlock ss
  | .body ss => Stmt.yieldBlock ss
  | .alternate a => Stmt.yieldAlternate a
  | .orelse ss => if ss.isEmpty then [] else .keyword "else" :: .delimiter ":" :: Stmt.yieldBlock ss

/-- Tokens in which every block opens on text and no name has a dot in it. -/
structure Readable (ts : List Token) : Prop where
  opens : opensOnText ts = true
  dotless : dotless ts = true

/-- What is left of readable tokens is readable. -/
theorem Readable.of_suffix {ts us : List Token} (h : Readable ts) (hus : us <:+ ts) :
    Readable us := by
  refine ⟨Token.opensOnText_of_suffix h.opens hus, List.all_eq_true.2 fun t ht => ?_⟩
  exact List.all_eq_true.1 h.dotless t (hus.subset ht)

theorem Readable.of_append {ts us : List Token} (h : Readable (ts ++ us)) :
    Token.dotless ts = true ∧ Readable us := by
  refine ⟨List.all_eq_true.2 fun t ht => ?_, h.of_suffix (List.suffix_append ts us)⟩
  exact List.all_eq_true.1 h.dotless t (List.mem_append_left us ht)

/-- A block that opens on text has a statement. -/
theorem Takes.ne_nil_of_block {r : Reader} {ss : List Stmt} {ts rest : List Token}
    (h : Takes r (.block ss) ts rest) (hts : Readable ts) : ss ≠ [] := by
  cases h with
  | @block colon newline indent _ ts _ _ _ hindent hbody =>
      have hopens : opensOnText (indent :: ts) = true :=
        (hts.of_suffix (List.suffix_append [colon, newline] _)).opens
      rw [Token.opensOnText_indent hindent, Bool.and_eq_true_iff] at hopens
      exact hbody.ne_nil_of_startsText hopens.1

/-- **What is taken spells the yield of what it is taken as**, with the blocks of a
statement. -/
theorem Takes.spelled {piece : Piece} {ts rest : List Token}
    (h : Takes Program.fstringReader piece ts rest) (hts : Readable ts) :
    ∃ used, ts = used ++ rest ∧ Spelled piece.yield used := by
  induction h with
  | line hsimple _ => exact ⟨_, rfl, hsimple.spelled hts.of_append.1⟩
  | @semicolon s t ts rest hsimple _ ht =>
      refine ⟨ts ++ [t], by simp, ?_⟩
      have hpass : Spelled [] [t] := .pass (fun after => by simp [Token.isPassed, ht]) .nil
      simpa [Piece.yield] using (hsimple.spelled hts.of_append.1).append hpass
  | @functionDef t name opening names body ts us rest ht hname hopening hnames _ ih =>
      obtain ⟨used, rfl, hbody⟩ :=
        ih (hts.of_suffix ⟨t :: name :: opening :: ts, by simp⟩)
      refine ⟨t :: name :: opening :: (ts ++ used), by simp, ?_⟩
      have hrest : Spelled (Mark.ofNames (.delimiter ",") names ++
          .delimiter ")" :: .delimiter ":" :: Stmt.yieldBlock body) (ts ++ used) := by
        simpa [Piece.yield] using hnames.spelled.append hbody
      exact .cons (.keyword ht (by decide)) (.cons (.name hname)
        (.cons (.delimiter hopening (by decide) (by decide)) hrest))
  | @classDef t name body ts rest ht hname _ ih =>
      obtain ⟨used, rfl, hbody⟩ := ih (hts.of_suffix ⟨[t, name], rfl⟩)
      exact ⟨t :: name :: used, rfl, .cons (.keyword ht (by decide)) (.cons (.name hname) hbody)⟩
  | @conditional t _ _ _ ts us vs rest ht hcondition _ _ ihbody ihmore =>
      have hblock := hts.of_suffix ⟨t :: ts, rfl⟩
      obtain ⟨used, rfl, hbody⟩ := ihbody hblock
      obtain ⟨more, rfl, halternate⟩ := ihmore hblock.of_append.2
      refine ⟨t :: (ts ++ (used ++ more)), by simp, ?_⟩
      exact .cons (.keyword ht (by decide)) (hcondition.spelled.append (hbody.append halternate))
  | @whileLoop t _ _ _ ts us vs rest ht hcondition _ _ ihbody ihmore =>
      have hblock := hts.of_suffix ⟨t :: ts, rfl⟩
      obtain ⟨used, rfl, hbody⟩ := ihbody hblock
      obtain ⟨more, rfl, horelse⟩ := ihmore hblock.of_append.2
      refine ⟨t :: (ts ++ (used ++ more)), by simp, ?_⟩
      exact .cons (.keyword ht (by decide)) (hcondition.spelled.append (hbody.append horelse))
  | @forLoop t isIn _ _ _ _ ts us vs ws rest ht htarget hin hiter _ _ ihbody ihmore =>
      have hblock : Readable vs := hts.of_suffix ⟨t :: (ts ++ isIn :: us), by simp⟩
      obtain ⟨used, rfl, hbody⟩ := ihbody hblock
      obtain ⟨more, rfl, horelse⟩ := ihmore hblock.of_append.2
      refine ⟨t :: (ts ++ isIn :: (us ++ (used ++ more))), by simp, ?_⟩
      exact .cons (.keyword ht (by decide)) (htarget.spelled.append (.cons
        (.keyword hin (by decide)) (hiter.spelled.append (hbody.append horelse))))
  | @elseIf t _ _ _ ts us vs rest ht hcondition _ _ ihbody ihmore =>
      have hblock := hts.of_suffix ⟨t :: ts, rfl⟩
      obtain ⟨used, rfl, hbody⟩ := ihbody hblock
      obtain ⟨more, rfl, halternate⟩ := ihmore hblock.of_append.2
      refine ⟨t :: (ts ++ (used ++ more)), by simp, ?_⟩
      exact .cons (.keyword ht (by decide)) (hcondition.spelled.append (hbody.append halternate))
  | @otherwise t _ _ _ ht _ ih =>
      obtain ⟨used, rfl, hbody⟩ := ih (hts.of_suffix (List.suffix_cons t _))
      exact ⟨t :: used, rfl, .cons (.keyword ht (by decide)) hbody⟩
  | noAlternate _ | noLoopElse _ => exact ⟨[], rfl, .nil⟩
  | @loopElse t body _ _ ht hblock ih =>
      have hrest := hts.of_suffix (List.suffix_cons t _)
      -- An `else` block that is there has a statement in it, and so is seen in the program.
      have hne := hblock.ne_nil_of_block hrest
      obtain ⟨used, rfl, hbody⟩ := ih hrest
      refine ⟨t :: used, rfl, ?_⟩
      rw [Piece.yield, if_neg (by simpa using hne)]
      exact .cons (.keyword ht (by decide)) hbody
  | @block colon newline indent _ _ _ hcolon hnewline hindent _ ih =>
      obtain ⟨used, rfl, hbody⟩ := ih (hts.of_suffix ⟨[colon, newline, indent], rfl⟩)
      refine ⟨colon :: newline :: indent :: used, rfl, ?_⟩
      have hinner := hbody.pass (t := indent) fun after => by simp [Token.isPassed, hindent]
      exact .cons (.delimiter hcolon (by decide) (by decide))
        (hinner.pass fun after => by simp [Token.isPassed, hnewline])
  | bodyEnd => exact ⟨[], rfl, .nil⟩
  | @dedent t rest ht =>
      exact ⟨[t], rfl, Spelled.nil.pass fun after => by simp [Token.isPassed, ht]⟩
  | @bodyNewline t _ _ _ ht _ ih =>
      obtain ⟨used, rfl, hbody⟩ := ih (hts.of_suffix (List.suffix_cons t _))
      exact ⟨t :: used, rfl, hbody.pass fun after => by simp [Token.isPassed, ht]⟩
  | bodyStatement _ _ ihs ih =>
      obtain ⟨first, rfl, hfirst⟩ := ihs hts
      obtain ⟨later, rfl, hlater⟩ := ih hts.of_append.2
      exact ⟨first ++ later, by simp, hfirst.append hlater⟩

/-- The tokens of a program spell its yield. -/
theorem FormsProgram.spelled {ss : List Stmt} {ts : List Token}
    (h : FormsProgram Program.fstringReader ss ts) (hts : Readable ts) :
    Spelled (Stmt.yieldBlock ss) ts := by
  induction h with
  | done => exact .nil
  | @dedent t _ _ ht _ ih | @newline t _ _ ht _ ih =>
      have hrest := ih (hts.of_suffix (List.suffix_cons t _))
      exact hrest.pass fun after => by simp [Token.isPassed, ht]
  | statement hs _ ih =>
      obtain ⟨used, rfl, hused⟩ := hs.spelled hts
      exact hused.append (ih hts.of_append.2)

end Grammar

/-! ### Tokens that stand in no program

A token of a kind that spells no mark can be in no program, which is how comments and
stray characters are ruled out.
-/

/-- A token that does not count is one of the layout or a delimiter. -/
theorem Token.mem_essential {ts : List Token} {t : Token} (h : t ∈ ts) :
    t.kind.isLayout = true ∨ t.kind = .delimiter ∨ t ∈ essential ts := by
  induction ts with
  | nil => simp at h
  | cons u ts ih =>
      rw [essential]
      by_cases hpassed : u.isPassed ts = true
      · rw [if_pos hpassed]
        rcases List.mem_cons.1 h with rfl | hrest
        · simp only [isPassed, Bool.or_eq_true, Bool.and_eq_true] at hpassed
          rcases hpassed with (hlayout | hsemicolon) | hcomma
          · exact .inl hlayout
          · exact .inr (.inl (is_iff.1 hsemicolon).1)
          · exact .inr (.inl (is_iff.1 hcomma.1).1)
        · exact ih hrest
      · rw [if_neg hpassed]
        rcases List.mem_cons.1 h with rfl | hrest
        · exact .inr (.inr List.mem_cons_self)
        · exact (ih hrest).imp_right (.imp_right (List.mem_cons_of_mem u))

/-- The kinds of token of which there are some in programs. -/
def TokenKind.isUsed : TokenKind → Bool
  | .comment | .whitespace | .error | .eof => false
  | _ => true

/-- Marks are spelled by tokens of the kinds that the grammar uses. -/
theorem Token.Spells.isUsed {t : Token} {m : Mark} (h : t.Spells m) :
    t.kind.isUsed = true ∧ (t.kind = .keyword → t.text ∈ Grammar.words) := by
  cases m with
  | keyword text used =>
      obtain ⟨hkind, htext⟩ := h
      exact ⟨by rw [hkind]; rfl, fun _ => htext ▸ used⟩
  | name _ | operator _ | delimiter _ | number _ | string _ | fstring _ _ =>
      have hkind := h.1
      exact ⟨by rw [hkind]; rfl, by simp [hkind]⟩
  | dot => exact ⟨by rw [show t.kind = .dot from h]; rfl, by simp [show t.kind = .dot from h]⟩
  | binary op line =>
      obtain ⟨hkind | ⟨hkind, hop⟩, htext, -⟩ := h
      · exact ⟨by rw [hkind]; rfl, by simp [hkind]⟩
      · refine ⟨by rw [hkind]; rfl, fun _ => ?_⟩
        rcases hop with rfl | rfl <;> (rw [htext]; decide)

theorem Token.isUsed_of_spells {ts : List Token} {marks : List Mark}
    (h : List.Forall₂ Spells ts marks) :
    ∀ t ∈ ts, t.kind.isUsed = true ∧ (t.kind = .keyword → t.text ∈ Grammar.words) := by
  induction h with
  | nil => simp
  | cons hspells _ ih => exact List.forall_mem_cons.2 ⟨hspells.isUsed, ih⟩

open Token Grammar in
/-- **The tokens of a program that count are those that its tree accounts for.** -/
theorem Program.spells_yield {ts : List Token} {p : Program} (hts : Readable ts)
    (h : ofTokens ts = .ok p) : List.Forall₂ Spells (essential ts) p.yield := by
  obtain ⟨kept, hkept, hmarks⟩ := (ofTokens_eq_ok_iff.1 h).spelled hts
  have hessential : essential ts = kept := by simpa [essential] using hkept []
  rwa [hessential]

/-- Every token of a program is of a kind that programs use, and its keywords are
keywords of the grammar. -/
theorem Program.isUsed_of_mem {ts : List Token} {p : Program} (hts : Grammar.Readable ts)
    (h : ofTokens ts = .ok p) {t : Token} (ht : t ∈ ts) :
    t.kind.isUsed = true ∧ (t.kind = .keyword → t.text ∈ Grammar.words) := by
  rcases Token.mem_essential ht with hlayout | hkind | hessential
  · cases hkind : t.kind with
    | newline | indent | dedent => simp [TokenKind.isUsed]
    | _ => simp [hkind] at hlayout
  · simp [hkind, TokenKind.isUsed]
  · exact Token.isUsed_of_spells (spells_yield hts h) t hessential

/-- A name is cut up to a dot. -/
theorem Token.dotless_ofProgram (source : List Char) : dotless (ofProgram source) = true := by
  refine List.all_eq_true.2 fun t ht => ?_
  by_cases hkind : t.kind = .identifier
  · obtain ⟨letters, hletters, htext, -⟩ := exists_word_of_mem_ofProgram ht (.inr hkind)
    have hdot : '.' ∉ letters := by
      intro hmem
      cases Lexeme.isWordPart_of_mem_scan hletters hmem
    simp [htext, hdot]
  · simp [hkind]

theorem Token.readable_ofProgram (source : List Char) : Grammar.Readable (ofProgram source) :=
  ⟨opensOnText_ofProgram source, dotless_ofProgram source⟩

open Token Grammar in
/-- If every block opens on text and no name has a dot in it, as in the tokens of
every source, then the tokens of a program spell its yield, and none of them is of
a kind or a keyword that the grammar does not know. -/
theorem yield_of_ofTokens :
    (∀ (ts : List Token) (p : Program), opensOnText ts = true → dotless ts = true →
      Program.ofTokens ts = .ok p →
      List.Forall₂ Spells (essential ts) p.yield ∧
      ∀ t ∈ ts, t.kind ∉ [.error, .comment, .whitespace, .eof] ∧
        (t.kind = .keyword →
          t.text ∉ ["as", "await", "del", "except", "from", "global", "try"])) ∧
    ∀ source : List Char,
      opensOnText (ofProgram source) = true ∧ dotless (ofProgram source) = true := by
  constructor
  · intro ts p hopens hdotless h
    have hts : Readable ts := ⟨hopens, hdotless⟩
    refine ⟨Program.spells_yield hts h, fun t ht => ?_⟩
    obtain ⟨hkind, hwords⟩ := Program.isUsed_of_mem hts h ht
    constructor
    · intro hmem
      have hnone : ∀ kind ∈ [TokenKind.error, .comment, .whitespace, .eof],
          kind.isUsed = false := by decide
      rw [hnone t.kind hmem] at hkind
      cases hkind
    · intro hkeyword hmem
      have hnone : ∀ word ∈ ["as", "await", "del", "except", "from", "global", "try"],
          word ∉ Grammar.words := by decide
      exact hnone t.text hmem (hwords hkeyword)
  · intro source
    exact ⟨opensOnText_ofProgram source, dotless_ofProgram source⟩

/-- Tokens that no source has: the first one closes a block that is not open. -/
def strayDedent : List Token :=
  [⟨.dedent, "4", 1⟩, ⟨.keyword, "import", 1⟩, ⟨.identifier, "a", 1⟩, ⟨.dot, ".", 1⟩,
    ⟨.identifier, "b", 1⟩, ⟨.delimiter, ";", 1⟩, ⟨.delimiter, "[", 1⟩, ⟨.identifier, "x", 1⟩,
    ⟨.delimiter, ",", 1⟩, ⟨.delimiter, "]", 1⟩, ⟨.newline, "\n", 1⟩]

open Token in
theorem yield_of_strayDedent :
    Program.ofTokens strayDedent =
        .ok ⟨[.importModule ["a", "b"], .expr (.list [.ident "x"])]⟩ ∧
      List.Forall₂ Spells (essential strayDedent)
        [.keyword "import", .name "a", .dot, .name "b", .delimiter "[", .name "x",
          .delimiter "]"] := by
  have hread : Program.ofTokens strayDedent =
      .ok ⟨[.importModule ["a", "b"], .expr (.list [.ident "x"])]⟩ :=
    eq_ok_of_toOption (by decide +kernel)
  have hyield := (yield_of_ofTokens.1 strayDedent _ (by decide) (by decide) hread).1
  exact ⟨hread, hyield⟩

end Offside
