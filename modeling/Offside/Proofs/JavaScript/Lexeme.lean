import Offside.Proofs.Decimals
import Offside.Proofs.Spelling
import Offside.Target.Expr

/-!
# Offside.Proofs.JavaScript.Lexeme

The lexical rules of JavaScript, for the generated expressions to be read by.
`Lexeme.scan` cuts a text into names, numbers, strings, punctuators and the
pieces of template literals, each the longest that stands at its place.

What the generated code does not use is refused, not passed over: comments,
letters and blanks beyond ASCII, numbers with an exponent, in another base or
with a leading point, line continuations, surrogates. So a text that is read here
is read like this by every JavaScript engine, but not the other way round.
-/

namespace Offside.Target

/-- The pieces that an expression is made of. -/
inductive Lexeme where
  /-- An identifier name; reserved words are among them. -/
  | name (text : String)
  | number (value : Binary64)
  | string (value : String)
  | punctuator (symbol : String)
  /-- A text piece of a template literal. It begins the literal or goes on after
  a placeholder, and it ends the literal or goes up to a placeholder. -/
  | chunk (begins ends : Bool) (text : String)
deriving DecidableEq, Repr

namespace Lexeme

/-! ### Character classes -/

/-- Names start with a letter, an underscore or a dollar sign. -/
def isNameStart (c : Char) : Bool := c.isAlpha || c = '_' || c = '$'

/-- Names go on with letters, digits, underscores and dollar signs. -/
def isNamePart (c : Char) : Bool := c.isAlphanum || c = '_' || c = '$'

theorem isNamePart_of_isNameStart {c : Char} (h : isNameStart c = true) :
    isNamePart c = true := by
  simp only [isNameStart, isNamePart, Char.isAlphanum, Bool.or_eq_true] at h ⊢
  exact h.imp_left (.imp_left .inl)

/-- Blanks and line ends separate lexemes. -/
def spaces : List Char := [' ', '\t', '\n', '\r', '\x0b', '\x0c']

/-- The punctuators, and the marks that start a comment. A symbol stands before
each of its own beginnings. -/
def punctuators : List (List Char) :=
  [">>>=", "...", "===", "!==", "**=", "<<=", ">>=", ">>>", "&&=", "||=", "??=", "=>", "==", "!=",
    "<=", ">=", "&&", "||", "??", "?.", "++", "--", "+=", "-=", "*=", "/=", "%=", "&=", "|=", "^=",
    "<<", ">>", "**", "//", "/*", "\x7b", "\x7d", "(", ")", "[", "]", ".", ";", ",", "<", ">", "+",
    "-", "*", "/", "%", "&", "|", "^", "!", "~", "?", ":", "="].map String.toList

/-! ### Literals -/

/-- The number at the head of a text: digits, none of them a zero before another,
and perhaps a point and more digits. No name may follow it directly. -/
def number? (cs : List Char) : Option (Binary64 × List Char) :=
  let whole := cs.takeWhile Char.isDigit
  let (part, rest) := Numeral.fraction (cs.dropWhile Char.isDigit)
  if whole.head? = some '0' ∧ whole ≠ ['0'] then none
  else if rest.head?.any isNamePart then none
  else some (Binary64.ofDecimal false ⟨Numeral.ofDigits (whole ++ part), -part.length⟩, rest)

/-- The value of a hexadecimal digit. -/
def hexDigit? (c : Char) : Option Nat :=
  if c.isDigit then some (c.toNat - '0'.toNat)
  else if 'a' ≤ c ∧ c ≤ 'f' then some (c.toNat - 'a'.toNat + 10)
  else if 'A' ≤ c ∧ c ≤ 'F' then some (c.toNat - 'A'.toNat + 10)
  else none

/-- The character with the code that four hexadecimal digits give. -/
def codePoint? (a b c d : Char) : Option Char := do
  let code := 4096 * (← hexDigit? a) + 256 * (← hexDigit? b) + 16 * (← hexDigit? c) +
    (← hexDigit? d)
  if code < 0xd800 ∨ 0xdfff < code then some (Char.ofNat code) else none

/-- The character that an escape with this letter stands for. -/
def escaped? (c : Char) : Option Char :=
  if c = 'b' then some '\x08'
  else if c = 't' then some '\t'
  else if c = 'n' then some '\n'
  else if c = 'v' then some '\x0b'
  else if c = 'f' then some '\x0c'
  else if c = 'r' then some '\r'
  else if c.isDigit ∨ ['x', 'u', '\n', '\r', '\u2028', '\u2029'].contains c then none
  else some c

/-- The rules of a kind of quoted text. -/
structure Quotation where
  /-- The end of the text: whether the literal ends there, and what follows. -/
  stop? : List Char → Option (Bool × List Char)
  /-- The characters that stand for themselves. -/
  isPlain : Char → Bool
  length_le : ∀ {cs ends rest}, stop? cs = some (ends, rest) → rest.length ≤ cs.length

/-- Text up to a closing quote, on one line. -/
def Quotation.string (quote : Char) : Quotation where
  stop? cs := if cs.head? = some quote then some (true, cs.tail) else none
  isPlain c := !(['\\', '\n', '\r'].contains c)
  length_le := by
    intro cs ends rest h
    split at h
    · cases h
      simp
    · cases h

/-- The text of a template literal up to a placeholder or the closing backquote. -/
def Quotation.template : Quotation where
  stop? cs :=
    if cs.head? = some '\x60' then some (true, cs.tail)
    else if ['$', '\x7b'].isPrefixOf cs then some (false, cs.drop 2)
    else none
  isPlain c := !(['\\', '\r'].contains c)
  length_le := by
    intro cs ends rest h
    split at h
    · cases h
      simp
    · split at h
      · cases h
        simp
      · cases h

/-- Put characters in front of a quoted text. -/
def after (cs : List Char) (read : List Char × Bool × List Char) : List Char × Bool × List Char :=
  (cs ++ read.1, read.2)

/-- The quoted text at the head of a text, whether the literal ends after it, and
what follows. -/
def text? (q : Quotation) : List Char → Option (List Char × Bool × List Char)
  | [] => none
  | '\\' :: 'u' :: a :: b :: c :: d :: cs =>
    (codePoint? a b c d).bind fun u => (text? q cs).map (after [u])
  | '\\' :: c :: cs => (escaped? c).bind fun e => (text? q cs).map (after [e])
  | c :: cs =>
    match q.stop? (c :: cs) with
    | some (ends, rest) => some ([], ends, rest)
    | none => if q.isPlain c then (text? q cs).map (after [c]) else none

/-- The text of a literal is cut from the front. -/
theorem length_text?_le {q : Quotation} {cs text rest : List Char} {ends : Bool}
    (h : text? q cs = some (text, ends, rest)) : rest.length ≤ cs.length := by
  fun_induction text? q cs generalizing text ends rest with
  | case1 => cases h
  | case2 a b c d cs ih =>
      obtain ⟨u, -, hmap⟩ := Option.bind_eq_some_iff.1 h
      obtain ⟨⟨text', ends', rest'⟩, htext, heq⟩ := Option.map_eq_some_iff.1 hmap
      cases heq
      have := ih htext
      simp only [List.length_cons]
      omega
  | case3 c cs _ ih =>
      obtain ⟨e, -, hmap⟩ := Option.bind_eq_some_iff.1 h
      obtain ⟨⟨text', ends', rest'⟩, htext, heq⟩ := Option.map_eq_some_iff.1 hmap
      cases heq
      have := ih htext
      simp only [List.length_cons]
      omega
  | case4 c cs _ _ ends' rest' hstop =>
      cases h
      exact q.length_le hstop
  | case5 c cs _ _ _ _ ih =>
      obtain ⟨⟨text', ends', rest'⟩, htext, heq⟩ := Option.map_eq_some_iff.1 h
      cases heq
      have := ih htext
      simp only [List.length_cons]
      omega
  | case6 => cases h

/-! ### Reading one lexeme -/

/-- The piece of a template literal at the head of a text, inside `depth` open
placeholders, its first mark already read. -/
def chunk? (begins : Bool) (depth : Nat) (cs : List Char) : Option (Lexeme × Nat × List Char) :=
  (text? .template cs).map fun (text, ends, rest) =>
    (chunk begins ends (String.ofList text), if ends then depth else depth + 1, rest)

/-- The lexeme at the head of the text `c :: cs`, inside `depth` open
placeholders; after it, their number and the text that follows. -/
def next? (depth : Nat) (c : Char) (cs : List Char) : Option (Lexeme × Nat × List Char) :=
  if isNameStart c then
    some (name (String.ofList (c :: cs.takeWhile isNamePart)), depth, cs.dropWhile isNamePart)
  else if c.isDigit then
    (number? (c :: cs)).map fun (value, rest) => (number value, depth, rest)
  else if c = '"' ∨ c = '\'' then
    (text? (.string c) cs).map fun (text, _, rest) => (string (String.ofList text), depth, rest)
  else if c = '\x60' then chunk? true depth cs
  else if c = '\x7d' ∧ 0 < depth then chunk? false (depth - 1) cs
  else
    (punctuators.find? (·.isPrefixOf (c :: cs))).map fun symbol =>
      (punctuator (String.ofList symbol), depth, (c :: cs).drop symbol.length)

theorem length_fraction_le (cs : List Char) : (Numeral.fraction cs).2.length ≤ cs.length := by
  unfold Numeral.fraction
  split
  · exact Nat.le_trans (List.dropWhile_suffix _).length_le (Nat.le_succ _)
  · exact Nat.le_refl _

theorem length_number?_lt {c : Char} {cs rest : List Char} {value : Binary64}
    (hc : c.isDigit = true) (h : number? (c :: cs) = some (value, rest)) :
    rest.length < (c :: cs).length := by
  have hfraction := length_fraction_le ((c :: cs).dropWhile Char.isDigit)
  have hdigits := (List.dropWhile_suffix (l := cs) Char.isDigit).length_le
  rw [List.dropWhile_cons_of_pos hc] at hfraction
  simp only [number?, List.dropWhile_cons_of_pos hc] at h
  split at h
  · cases h
  · split at h
    · cases h
    · cases h
      simp only [List.length_cons]
      omega

theorem length_chunk?_le {begins : Bool} {depth depth' : Nat} {cs rest : List Char} {x : Lexeme}
    (h : chunk? begins depth cs = some (x, depth', rest)) : rest.length ≤ cs.length := by
  obtain ⟨⟨text, ends, rest'⟩, htext, heq⟩ := Option.map_eq_some_iff.1 h
  cases heq
  exact length_text?_le htext

/-- **Every lexeme takes a character**, so scanning ends. -/
theorem length_next?_lt {depth depth' : Nat} {c : Char} {cs rest : List Char} {x : Lexeme}
    (h : next? depth c cs = some (x, depth', rest)) : rest.length < (c :: cs).length := by
  unfold next? at h
  split at h
  · cases h
    exact Nat.lt_succ_of_le (List.dropWhile_suffix _).length_le
  split at h
  · rename_i hdigit
    obtain ⟨⟨value, rest'⟩, hnumber, heq⟩ := Option.map_eq_some_iff.1 h
    cases heq
    exact length_number?_lt hdigit hnumber
  split at h
  · obtain ⟨⟨text, ends, rest'⟩, htext, heq⟩ := Option.map_eq_some_iff.1 h
    cases heq
    exact Nat.lt_succ_of_le (length_text?_le htext)
  split at h
  · exact Nat.lt_succ_of_le (length_chunk?_le h)
  split at h
  · exact Nat.lt_succ_of_le (length_chunk?_le h)
  obtain ⟨symbol, hfound, heq⟩ := Option.map_eq_some_iff.1 h
  cases heq
  have hne : ∀ s ∈ punctuators, 0 < s.length := by decide
  have hpos := hne symbol (List.mem_of_find?_eq_some hfound)
  rw [List.length_drop, List.length_cons]
  omega

/-! ### Reading all lexemes -/

/-- The lexemes of a text, inside `depth` open placeholders. -/
def scan (depth : Nat) (cs : List Char) : Option (List Lexeme) :=
  match cs with
  | [] => some []
  | c :: cs =>
    if spaces.contains c then scan depth cs
    else
      match _h : next? depth c cs with
      | some (x, depth', rest) => (scan depth' rest).map (x :: ·)
      | none => none
termination_by cs.length
decreasing_by
  · exact Nat.lt_succ_self _
  · exact length_next?_lt _h

@[simp] theorem scan_nil (depth : Nat) : scan depth [] = some [] := by rw [scan]

/-- White space between lexemes is passed over. -/
theorem scan_space {c : Char} (hc : c ∈ spaces) (depth : Nat) (cs : List Char) :
    scan depth (c :: cs) = scan depth cs := by
  rw [scan, if_pos (List.contains_iff_mem.2 hc)]

/-- A lexeme is cut and scanning goes on after it, at the depth that it leaves. -/
theorem scan_of_next? {depth depth' : Nat} {c : Char} {cs rest : List Char} {x : Lexeme}
    (hc : c ∉ spaces) (h : next? depth c cs = some (x, depth', rest)) :
    scan depth (c :: cs) = (scan depth' rest).map (x :: ·) := by
  rw [scan, if_neg (by simpa using hc)]
  split
  · rename_i heq
    rw [h] at heq
    cases heq
    rfl
  · rename_i heq
    rw [h] at heq
    cases heq

/-! ### Texts and their lexemes

`Scans` says which lexemes a text has before every text that starts with an allowed
character. Texts are put side by side by knowing the first character of the second.
-/

/-- A text is cut into these lexemes wherever it stands, as long as the character
after it is one of the allowed ones. -/
def Scans (allowed : Char → Bool) (text : List Char) (ls : List Lexeme) : Prop :=
  ∀ depth rest, (∀ c ∈ rest.head?, allowed c = true) →
    scan depth (text ++ rest) = (scan depth rest).map (ls ++ ·)

/-- Every character. -/
def anyChar (_ : Char) : Bool := true

namespace Scans

variable {allowed allowed' : Char → Bool} {text text' : List Char} {ls ls' : List Lexeme}

theorem mono (h : Scans allowed text ls) (hallowed : ∀ c, allowed' c = true → allowed c = true) :
    Scans allowed' text ls := by
  intro depth rest hrest
  exact h depth rest fun c hc => hallowed c (hrest c hc)

/-- Two texts side by side are scanned one after the other if the second never
starts with a character that the first would take. -/
theorem append_of (h : Scans allowed text ls) (h' : Scans allowed' text' ls')
    (hnext : ∀ rest, (∀ c ∈ rest.head?, allowed' c = true) →
      ∀ c ∈ (text' ++ rest).head?, allowed c = true) :
    Scans allowed' (text ++ text') (ls ++ ls') := by
  intro depth rest hrest
  rw [List.append_assoc, h depth _ (hnext rest hrest), h' depth rest hrest, Option.map_map]
  congr 1
  funext ms
  exact (List.append_assoc ls ls' ms).symm

/-- Two texts side by side, where the second one is not empty. -/
theorem append (h : Scans allowed text ls) (h' : Scans allowed' text' ls')
    (hnext : ∃ c, text'.head? = some c ∧ allowed c = true) :
    Scans allowed' (text ++ text') (ls ++ ls') := by
  obtain ⟨c, hhead, hc⟩ := hnext
  refine h.append_of h' fun rest _ d hd => ?_
  rw [List.head?_append, hhead] at hd
  cases hd
  exact hc

theorem append_any (h : Scans anyChar text ls) (h' : Scans allowed' text' ls') :
    Scans allowed' (text ++ text') (ls ++ ls') :=
  h.append_of h' fun _ _ _ _ => rfl

end Scans

/-- A text is one lexeme wherever it stands, as long as the character after it is one
of the allowed ones. -/
def Cuts (allowed : Char → Bool) (text : List Char) (x : Lexeme) : Prop :=
  ∃ c cs, text = c :: cs ∧ c ∉ spaces ∧ ∀ depth rest, (∀ d ∈ rest.head?, allowed d = true) →
    next? depth c (cs ++ rest) = some (x, depth, rest)

namespace Cuts

variable {allowed allowed' : Char → Bool} {text : List Char} {x : Lexeme}

theorem mono (h : Cuts allowed text x) (hallowed : ∀ c, allowed' c = true → allowed c = true) :
    Cuts allowed' text x := by
  obtain ⟨c, cs, htext, hc, hnext⟩ := h
  exact ⟨c, cs, htext, hc, fun depth rest hrest =>
    hnext depth rest fun d hd => hallowed d (hrest d hd)⟩

theorem scans (h : Cuts allowed text x) : Scans allowed text [x] := by
  obtain ⟨c, cs, rfl, hc, hnext⟩ := h
  exact fun depth rest hrest => scan_of_next? hc (hnext depth rest hrest)

end Cuts

theorem scans_space : Scans anyChar [' '] [] := by
  intro depth rest _
  rw [List.cons_append, List.nil_append, scan_space (by decide)]
  cases scan depth rest <;> rfl

/-! ### Names and numbers -/

/-- A text is a name. -/
def isName : List Char → Bool
  | [] => false
  | c :: cs => isNameStart c && cs.all isNamePart

/-- A name ends before these characters. -/
def endsName (c : Char) : Bool := !isNamePart c

/-- A number ends before these characters. A point would belong to it, unless it has
one already. -/
def endsNumber (pointed : Bool) (c : Char) : Bool := !isNamePart c && (c ≠ '.' || pointed)

/-- A name is cut whole before everything that cannot be part of it. -/
theorem cuts_name {text : List Char} (h : isName text = true) :
    Cuts endsName text (name (String.ofList text)) := by
  cases text with
  | nil => cases h
  | cons c cs =>
      obtain ⟨hc, hcs⟩ := Bool.and_eq_true_iff.1 h
      refine ⟨c, cs, rfl, Lexeme.not_mem_of_class hc (by decide), fun depth rest hrest => ?_⟩
      have hend : ∀ d ∈ rest.head?, isNamePart d = false := fun d hd => by
        simpa [endsName] using hrest d hd
      rw [next?, if_pos hc, Lexeme.takeWhile_append_of_head (List.all_eq_true.1 hcs) hend,
        Lexeme.dropWhile_append_of_head (List.all_eq_true.1 hcs) hend]

theorem isNameStart_eq_false_of_isDigit {c : Char} (h : c.isDigit = true) :
    isNameStart c = false := by
  refine Bool.eq_false_iff.2 fun hstart => ?_
  rcases Bool.or_eq_true_iff.1 hstart with hword | hdollar
  · exact Bool.false_ne_true ((Lexeme.isDigit_eq_false_of_isWordStart hword).symm.trans h)
  · rw [of_decide_eq_true hdollar] at h
    exact absurd h (by decide)

theorem isDigit_eq_false_of_isNamePart {c : Char} (h : isNamePart c = false) :
    c.isDigit = false := by
  simp only [isNamePart, Char.isAlphanum, Bool.or_eq_false_iff] at h
  exact h.1.1.2

/-- A decimal literal is cut into its digits before and behind the point. -/
theorem fraction_of_isLiteral {text whole part rest : List Char}
    (h : Numeral.IsLiteral text whole part)
    (hrest : ∀ c ∈ rest.head?, endsNumber (part ≠ []) c = true) :
    (text ++ rest).takeWhile Char.isDigit = whole ∧
      Numeral.fraction ((text ++ rest).dropWhile Char.isDigit) = (part, rest) := by
  have hwhole : ∀ c ∈ whole, c.isDigit = true := fun c hc =>
    h.isDigit_of_mem c (List.mem_append_left part hc)
  have hdigit : ∀ c ∈ rest.head?, c.isDigit = false := fun c hc =>
    isDigit_eq_false_of_isNamePart (by simpa using (Bool.and_eq_true_iff.1 (hrest c hc)).1)
  rw [h.text_eq, List.append_assoc]
  by_cases hpart : part = []
  · rw [if_pos hpart, List.nil_append, Lexeme.takeWhile_append_of_head hwhole hdigit,
      Lexeme.dropWhile_append_of_head hwhole hdigit, hpart]
    refine ⟨rfl, ?_⟩
    rw [Numeral.fraction]
    rintro cs rfl
    have hpoint := hrest '.' rfl
    simp [endsNumber, hpart] at hpoint
  · have hpoint : ∀ c ∈ ('.' :: part ++ rest).head?, c.isDigit = false := by
      rintro c ⟨⟩
      rfl
    have hdigits : ∀ c ∈ part, c.isDigit = true := fun c hc =>
      h.isDigit_of_mem c (List.mem_append_right whole hc)
    rw [if_neg hpart, Lexeme.takeWhile_append_of_head hwhole hpoint,
      Lexeme.dropWhile_append_of_head hwhole hpoint, List.cons_append, Numeral.fraction,
      Lexeme.takeWhile_append_of_head hdigits hdigit,
      Lexeme.dropWhile_append_of_head hdigits hdigit]
    exact ⟨rfl, rfl⟩

/-- A decimal literal is read as the number that it stands for. -/
theorem number?_of_isLiteral {text whole part rest : List Char}
    (h : Numeral.IsLiteral text whole part)
    (hrest : ∀ c ∈ rest.head?, endsNumber (part ≠ []) c = true) :
    number? (text ++ rest) =
      some (Binary64.ofDecimal false ⟨Numeral.ofDigits (whole ++ part), -part.length⟩, rest) := by
  obtain ⟨hwhole, hfraction⟩ := fraction_of_isLiteral h hrest
  have hlegal : ¬ (whole.head? = some '0' ∧ whole ≠ ['0']) := fun hzero =>
    hzero.2 (h.eq_zero hzero.1)
  have hend : ¬ rest.head?.any isNamePart = true := by
    cases hhead : rest.head? with
    | none => exact Bool.false_ne_true
    | some c => simpa using (Bool.and_eq_true_iff.1 (hrest c hhead)).1
  simp only [number?, hwhole, hfraction]
  rw [if_neg hlegal, if_neg hend]

/-- A literal has a point exactly if it has digits after it. -/
theorem contains_point_iff {text whole part : List Char} (h : Numeral.IsLiteral text whole part) :
    text.contains '.' = decide (part ≠ []) := by
  have hnot {cs : List Char} (hcs : ∀ c ∈ cs, c ∈ whole ++ part) : '.' ∉ cs := fun hmem =>
    absurd (h.isDigit_of_mem '.' (hcs '.' hmem)) (by decide)
  have hwhole : '.' ∉ whole := hnot fun c hc => List.mem_append_left part hc
  rw [h.text_eq]
  by_cases hpart : part = []
  · simp [hpart, hwhole]
  · simp [hpart]

/-- A number is cut whole, and has the value that its digits stand for. -/
theorem cuts_literal {text whole part : List Char} (h : Numeral.IsLiteral text whole part) :
    Cuts (endsNumber (text.contains '.')) text
      (number (Binary64.ofDecimal false ⟨Numeral.ofDigits (whole ++ part), -part.length⟩)) := by
  obtain ⟨c, cs, htext, hc⟩ := h.exists_cons
  refine ⟨c, cs, htext, Lexeme.not_mem_of_class hc (by decide), fun depth rest hrest => ?_⟩
  rw [contains_point_iff h] at hrest
  rw [next?, if_neg (by simp [isNameStart_eq_false_of_isDigit hc]), if_pos hc, ← List.cons_append,
    ← htext, number?_of_isLiteral h hrest]
  rfl

/-- The code of a number is read as that number. -/
theorem cuts_number {m : Nat} {k : Int} (h : Binary64.IsCanonical m k) :
    Cuts (endsNumber ((Binary64.toCode (.finite false m k)).toList.contains '.'))
      (Binary64.toCode (.finite false m k)).toList (number (.finite false m k)) := by
  obtain ⟨whole, part, hliteral, hvalue⟩ := Binary64.exists_literal_toCode h
  have hcuts := cuts_literal hliteral
  rwa [hvalue] at hcuts

/-! ### Strings -/

theorem text?_escape {q : Quotation} {c e : Char} (hc : escaped? c = some e) (cs : List Char) :
    text? q ('\\' :: c :: cs) = (text? q cs).map (after [e]) := by
  have hu : escaped? 'u' = none := by decide
  rw [text?, hc, Option.bind_some]
  rintro a b d f ds rfl rfl
  rw [hu] at hc
  cases hc

theorem text?_plain {q : Quotation} {c : Char} {cs : List Char} (hc : c ≠ '\\')
    (hstop : q.stop? (c :: cs) = none) (hplain : q.isPlain c = true) :
    text? q (c :: cs) = (text? q cs).map (after [c]) := by
  rw [text?, hstop, if_pos hplain]
  · rintro a b d f ds rfl
    exact absurd rfl hc
  · rintro d ds rfl
    exact absurd rfl hc

/-- A control character is read from the two hexadecimal digits that it is written
with. -/
theorem codePoint?_of_lt {c : Char} (hc : c.toNat < 32) :
    codePoint? '0' '0' (c.toNat / 16).digitChar (c.toNat % 16).digitChar = some c := by
  have hall : ∀ n < 32, codePoint? '0' '0' (n / 16).digitChar (n % 16).digitChar =
      some (Char.ofNat n) := by decide
  rw [hall c.toNat hc, Char.ofNat_toNat]

/-- A character between double quotes stands for itself. -/
theorem text?_escapeChar (c : Char) (cs : List Char) :
    text? (.string '"') (Text.escapeChar c ++ cs) = (text? (.string '"') cs).map (after [c]) := by
  unfold Text.escapeChar
  iterate 7
    split
    · rename_i hc
      subst hc
      exact text?_escape (by decide) cs
  split
  · rename_i hc
    simp only [List.cons_append, List.nil_append]
    rw [text?, codePoint?_of_lt hc, Option.bind_some]
  · rename_i hquote hbackslash _ _ hline _ hreturn _
    refine text?_plain hbackslash ?_ ?_
    · simp [Quotation.string, hquote]
    · simp [Quotation.string, hbackslash, hline, hreturn]

/-- A text between quotes is read as it was before escaping. -/
theorem text?_quoted (cs rest : List Char) :
    text? (.string '"') (cs.flatMap Text.escapeChar ++ '"' :: rest) = some (cs, true, rest) := by
  induction cs with
  | nil => rfl
  | cons c cs ih =>
      rw [List.flatMap_cons, List.append_assoc, text?_escapeChar, ih]
      rfl

/-- **A string is read as the text that it stands for.** -/
theorem cuts_string (s : String) : Cuts anyChar (Text.quote s).toList (string s) := by
  rw [Text.quote, String.toList_ofList]
  refine ⟨_, _, rfl, by decide, fun depth rest _ => ?_⟩
  have htext := text?_quoted s.toList rest
  rw [List.append_assoc, List.cons_append, List.nil_append, next?, if_neg (by decide),
    if_neg (by decide), if_pos (.inl rfl), htext]
  simp

/-! ### Template literals -/

/-- The text of a piece of a template literal. -/
def chunkText (begins ends : Bool) (quasi : String) : List Char :=
  (if begins then '\x60' else '\x7d') :: escapeTemplateChars quasi.toList ++
    if ends then ['\x60'] else ['$', '\x7b']

/-- Escaping puts no brace at the start of a text, so a dollar before it opens no
placeholder. -/
theorem head_escapeTemplateChars {cs tail : List Char} (hcs : cs.head? ≠ some '\x7b')
    (htail : tail.head? ≠ some '\x7b') :
    (escapeTemplateChars cs ++ tail).head? ≠ some '\x7b' := by
  unfold escapeTemplateChars
  split <;> simp_all

/-- A text piece of a template literal is read as it was before it was escaped. -/
theorem text?_escapeTemplateChars {tail : List Char} (htail : tail.head? ≠ some '\x7b')
    (cs : List Char) :
    text? .template (escapeTemplateChars cs ++ tail) = (text? .template tail).map (after cs) := by
  fun_induction escapeTemplateChars cs with
  | case1 => cases htext : text? .template tail <;> simp [htext, after]
  | case2 cs ih | case3 cs ih | case5 cs ih | case6 cs ih =>
      rw [List.cons_append, List.cons_append, text?_escape rfl, ih, Option.map_map]
      rfl
  | case4 cs ih =>
      -- The brace after an escaped dollar sign is an ordinary character.
      have hbrace : text? .template ('\x7b' :: (escapeTemplateChars cs ++ tail)) =
          (text? .template (escapeTemplateChars cs ++ tail)).map (after ['\x7b']) :=
        text?_plain (by decide) (by simp [Quotation.template]) (by decide)
      simp only [List.cons_append]
      rw [text?_escape rfl, hbrace, ih, Option.map_map, Option.map_map]
      rfl
  | case7 c cs hbackslash hquote hhole hline hreturn ih =>
      have hopen : ['$', '\x7b'].isPrefixOf (c :: (escapeTemplateChars cs ++ tail)) = false := by
        refine Bool.eq_false_iff.2 fun hstarts => ?_
        obtain ⟨rest, hrest⟩ := List.isPrefixOf_iff_prefix.1 hstarts
        obtain ⟨rfl, hafter⟩ := List.cons.inj hrest
        refine head_escapeTemplateChars (fun hhead => ?_) htail (by rw [← hafter]; rfl)
        obtain ⟨ds, rfl⟩ := List.head?_eq_some_iff.1 hhead
        exact hhole ds rfl rfl
      rw [List.cons_append, text?_plain hbackslash ?_ ?_, ih, Option.map_map]
      · rfl
      · simp only [Quotation.template, List.head?_cons, Option.some.injEq, if_neg hquote, hopen,
          Bool.false_eq_true, if_false]
      · have hbackslash' : c ≠ '\\' := hbackslash
        have hreturn' : c ≠ '\r' := hreturn
        simp [Quotation.template, hbackslash', hreturn']

/-- A text piece of a template literal is read up to the mark that ends it. -/
theorem text?_chunk (ends : Bool) (quasi : String) (rest : List Char) :
    text? .template (escapeTemplateChars quasi.toList ++
      (if ends then ['\x60'] else ['$', '\x7b']) ++ rest) = some (quasi.toList, ends, rest) := by
  cases ends with
  | true =>
      rw [List.append_assoc, text?_escapeTemplateChars (by simp)]
      simp [text?, Quotation.template, after]
  | false =>
      rw [List.append_assoc, text?_escapeTemplateChars (by simp)]
      simp [text?, Quotation.template, after]

/-- A part of a template is scanned up to its placeholder or its end, and changes
the depth by one or not at all. -/
theorem scan_chunk (begins ends : Bool) (quasi : String) (depth : Nat) (rest : List Char) :
    scan (if begins then depth else depth + 1) (chunkText begins ends quasi ++ rest) =
      (scan (if ends then depth else depth + 1) rest).map (chunk begins ends quasi :: ·) := by
  have hchunk : chunk? begins depth (escapeTemplateChars quasi.toList ++
      (if ends then ['\x60'] else ['$', '\x7b']) ++ rest) =
        some (chunk begins ends quasi, if ends then depth else depth + 1, rest) := by
    rw [chunk?, text?_chunk]
    simp
  cases begins with
  | true =>
      refine scan_of_next? (by decide) ?_
      rw [next?, if_neg (by decide), if_neg (by decide), if_neg (by decide), if_pos rfl]
      exact hchunk
  | false =>
      refine scan_of_next? (by decide) ?_
      rw [next?, if_neg (by decide), if_neg (by decide), if_neg (by decide), if_neg (by decide),
        if_pos ⟨rfl, Nat.succ_pos depth⟩]
      exact hchunk

/-! ### Punctuators

Of several punctuators that a text starts with, the longest one is cut.
-/

/-- The characters that make a longer punctuator of a symbol. -/
def extenders (symbol : String) : List Char :=
  punctuators.filterMap fun longer =>
    if symbol.toList.isPrefixOf longer then (longer.drop symbol.toList.length).head? else none

/-- A punctuator ends before these characters. -/
def endsPunctuator (symbol : String) (c : Char) : Bool := !(extenders symbol).contains c

/-- A punctuator is cut whole before everything that would not make it a longer one. -/
theorem cuts_punctuator {symbol : String} (h : symbol.toList ∈ punctuators)
    (hne : symbol.toList ≠ ['\x7d']) :
    Cuts (endsPunctuator symbol) symbol.toList (punctuator symbol) := by
  have hself : ∀ s ∈ punctuators, punctuators.find? (·.isPrefixOf s) = some s := by
    decide +kernel
  have hall : ∀ s ∈ punctuators, s ≠ ['\x7d'] → s.head?.all (fun c => !spaces.contains c &&
      !isNameStart c && !c.isDigit && c ≠ '"' && c ≠ '\'' && c ≠ '\x60' && c ≠ '\x7d') = true := by
    decide
  have hfind {rest : List Char} (hrest : ∀ c ∈ rest.head?, endsPunctuator symbol c = true) :
      punctuators.find? (·.isPrefixOf (symbol.toList ++ rest)) = some symbol.toList := by
    refine Lexeme.find?_isPrefixOf_append (hself _ h) fun c tail hmem hhead => ?_
    have hextends : c ∈ extenders symbol := by
      refine List.mem_filterMap.2 ⟨_, hmem, ?_⟩
      rw [if_pos (List.isPrefixOf_iff_prefix.2 (List.prefix_append ..)), List.drop_left]
      rfl
    have hends := hrest c hhead
    simp [endsPunctuator, hextends] at hends
  have hclass := hall symbol.toList h hne
  generalize hsymbol : symbol.toList = cs at *
  cases cs with
  | nil => exact absurd h (by decide)
  | cons c cs =>
      simp only [List.head?_cons, Option.all_some, Bool.and_eq_true, Bool.not_eq_true',
        decide_eq_true_eq] at hclass
      obtain ⟨⟨⟨⟨⟨⟨hspace, hname⟩, hdigit⟩, hdouble⟩, hsingle⟩, hback⟩, hbrace⟩ := hclass
      refine ⟨c, cs, rfl, by simpa using hspace, fun depth rest hrest => ?_⟩
      rw [next?, if_neg (by simp [hname]), if_neg (by simp [hdigit]),
        if_neg (by simp [hdouble, hsingle]), if_neg hback, if_neg (by simp [hbrace]),
        ← List.cons_append, hfind hrest, ← hsymbol]
      simp

end Lexeme

end Offside.Target
