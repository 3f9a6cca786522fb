/-!
# Offside.Token.Lexeme

Lexemes: the source text cut into the longest pieces of one class each, with
nothing left out. Comments, blanks and line ends are lexemes too, so the
spellings of the lexemes of a text, one after the other, are that text
(`flatMap_spelling_scan`). Which lexemes become tokens is decided later.

* `Lexeme.next` reads the lexeme at the head of a text that is not empty;
* `Lexeme.scan` reads all lexemes of a text.
-/

namespace Offside

/-- A piece of the source text. -/
inductive Lexeme where
  /-- A `#` and the rest of its line. -/
  | comment (text : List Char)
  /-- A run of spaces, tabs and carriage returns. -/
  | blanks (run : List Char)
  /-- A line feed. -/
  | newline
  /-- A string literal: its marker (empty, `f` or `F`), its quote, and the text
  between the quotes. -/
  | quoted (marker : List Char) (quote : Char) (body : List Char)
  /-- A keyword or an identifier. -/
  | word (letters : List Char)
  | number (digits : List Char)
  | operator (symbol : List Char)
  | delimiter (symbol : Char)
  | dot
  /-- A character that starts no other lexeme. -/
  | stray (char : Char)
deriving DecidableEq, Repr

namespace Lexeme

/-- The source text of a lexeme. -/
def spelling : Lexeme → List Char
  | comment text => '#' :: text
  | blanks run => run
  | newline => ['\n']
  | quoted marker quote body => marker ++ quote :: (body ++ [quote])
  | word letters => letters
  | number digits => digits
  | operator symbol => symbol
  | delimiter symbol => [symbol]
  | dot => ['.']
  | stray char => [char]

/-! ### Character classes -/

/-- Words start with an ASCII letter or an underscore. -/
def isWordStart (c : Char) : Bool := c.isAlpha || c = '_'

/-- Words go on with ASCII letters, digits and underscores. -/
def isWordPart (c : Char) : Bool := c.isAlphanum || c = '_'

/-- Blanks separate lexemes inside a line. -/
def isBlank (c : Char) : Bool := c = ' ' || c = '\t' || c = '\r'

/-- The characters that delimit and separate. -/
def delimiters : List Char := ['(', ')', '[', ']', ':', ',', ';']

/-- The operator symbols. A symbol stands before each of its own beginnings. -/
def operators : List (List Char) :=
  ["**=", "//=", ">>=", "<<=", "==", "!=", "<=", ">=", "+=", "-=", "*=", "/=", "%=", "**", "//",
    ">>", "<<", "=", "<", ">", "+", "-", "*", "/", "%"].map String.toList

/-- The words that name no variable. -/
def keywords : List (List Char) :=
  ["False", "None", "True", "and", "as", "await", "break", "class", "continue", "def", "del",
    "elif", "else", "except", "for", "from", "global", "if", "import", "in", "not", "or", "pass",
    "return", "try", "while"].map String.toList

/-! ### Reading one lexeme -/

/-- The text up to the closing quote, and what follows the quote. A backslash
takes the next character along; a literal does not go past the end of its
line. -/
def quotedBody (quote : Char) : List Char → Option (List Char × List Char)
  | [] => none
  | '\\' :: c :: cs =>
    if c = '\n' then none
    else (quotedBody quote cs).map fun (body, rest) => ('\\' :: c :: body, rest)
  | c :: cs =>
    if c = quote then some ([], cs)
    else if c = '\n' ∨ c = '\\' then none
    else (quotedBody quote cs).map fun (body, rest) => (c :: body, rest)

/-- The string literal at the head of a text, its marker already read. -/
def quotedAfter (marker : List Char) : List Char → Option (Lexeme × List Char)
  | [] => none
  | q :: cs =>
    if q = '"' ∨ q = '\'' then
      (quotedBody q cs).map fun (body, rest) => (quoted marker q body, rest)
    else none

/-- The string literal at the head of a text. -/
def quoted? : List Char → Option (Lexeme × List Char)
  | [] => none
  | c :: cs => if c = 'f' ∨ c = 'F' then quotedAfter [c] cs else quotedAfter [] (c :: cs)

/-- The fraction at the head of a text: a point with at least one digit after
it, or nothing. -/
def fraction : List Char → List Char × List Char
  | '.' :: c :: cs =>
    if c.isDigit then ('.' :: c :: cs.takeWhile Char.isDigit, cs.dropWhile Char.isDigit)
    else ([], '.' :: c :: cs)
  | cs => ([], cs)

/-- The operator at the head of a text. -/
def operator? (cs : List Char) : Option (Lexeme × List Char) :=
  (operators.find? (·.isPrefixOf cs)).map fun symbol => (operator symbol, cs.drop symbol.length)

/-- The lexeme at the head of the text `c :: cs`, and the text after it. -/
def next (c : Char) (cs : List Char) : Lexeme × List Char :=
  if c = '#' then (comment (cs.takeWhile (· ≠ '\n')), cs.dropWhile (· ≠ '\n'))
  else
    match quoted? (c :: cs) with
    | some found => found
    | none =>
      if isWordStart c then (word (c :: cs.takeWhile isWordPart), cs.dropWhile isWordPart)
      else if c.isDigit then
        let (part, rest) := fraction (cs.dropWhile Char.isDigit)
        (number (c :: cs.takeWhile Char.isDigit ++ part), rest)
      else
        match operator? (c :: cs) with
        | some found => found
        | none =>
          if c ∈ delimiters then (delimiter c, cs)
          else if c = '.' then (dot, cs)
          else if c = '\n' then (newline, cs)
          else if isBlank c then (blanks (c :: cs.takeWhile isBlank), cs.dropWhile isBlank)
          else (stray c, cs)

/-! ### Nothing is lost -/

theorem quotedBody_append {quote : Char} {cs body rest : List Char}
    (h : quotedBody quote cs = some (body, rest)) : body ++ quote :: rest = cs := by
  fun_induction quotedBody quote cs generalizing body rest with
  | case1 => simp at h
  | case2 => simp at h
  | case3 c cs _ ih =>
    obtain ⟨⟨b, r⟩, hb, heq⟩ := Option.map_eq_some_iff.1 h
    obtain ⟨rfl, rfl⟩ := Prod.mk.inj heq
    simp [ih hb]
  | case4 cs => simp_all
  | case5 => simp at h
  | case6 c cs _ _ _ ih =>
    obtain ⟨⟨b, r⟩, hb, heq⟩ := Option.map_eq_some_iff.1 h
    obtain ⟨rfl, rfl⟩ := Prod.mk.inj heq
    simp [ih hb]

theorem quotedAfter_eq_some {marker cs rest : List Char} {x : Lexeme}
    (h : quotedAfter marker cs = some (x, rest)) :
    ∃ q body, x = quoted marker q body ∧ cs = q :: (body ++ q :: rest) := by
  unfold quotedAfter at h
  split at h
  · simp at h
  · split at h
    · obtain ⟨⟨body, tail⟩, hbody, heq⟩ := Option.map_eq_some_iff.1 h
      obtain ⟨rfl, rfl⟩ := Prod.mk.inj heq
      exact ⟨_, body, rfl, by rw [quotedBody_append hbody]⟩
    · simp at h

theorem quoted?_eq_some {cs rest : List Char} {x : Lexeme} (h : quoted? cs = some (x, rest)) :
    ∃ marker q body, x = quoted marker q body ∧ cs = marker ++ q :: (body ++ q :: rest) := by
  unfold quoted? at h
  split at h
  · simp at h
  · split at h
    · obtain ⟨q, body, rfl, rfl⟩ := quotedAfter_eq_some h
      exact ⟨_, q, body, rfl, rfl⟩
    · obtain ⟨q, body, rfl, heq⟩ := quotedAfter_eq_some h
      exact ⟨[], q, body, rfl, heq⟩

theorem fraction_append (cs : List Char) : (fraction cs).1 ++ (fraction cs).2 = cs := by
  unfold fraction
  split
  · split <;> simp
  · simp

theorem operator?_append {cs rest : List Char} {x : Lexeme} (h : operator? cs = some (x, rest)) :
    x.spelling ++ rest = cs := by
  obtain ⟨symbol, hfound, heq⟩ := Option.map_eq_some_iff.1 h
  obtain ⟨rfl, rfl⟩ := Prod.mk.inj heq
  have hp : symbol <+: cs := List.isPrefixOf_iff_prefix.1 (by simpa using List.find?_some hfound)
  obtain ⟨tail, rfl⟩ := hp
  simp [spelling]

/-- A lexeme and the text after it make up the text it was read from. -/
theorem next_append (c : Char) (cs : List Char) :
    (next c cs).1.spelling ++ (next c cs).2 = c :: cs := by
  unfold next
  split
  · rename_i h
    simp [spelling, h]
  · split
    · rename_i found h
      obtain ⟨marker, q, body, hx, heq⟩ := quoted?_eq_some (show _ = some (found.1, found.2) from h)
      simp [hx, heq, spelling]
    · split
      · simp [spelling]
      · split
        · have := fraction_append (cs.dropWhile Char.isDigit)
          simp [spelling, this]
        · split
          · rename_i found h
            exact operator?_append h
          · split
            · simp [spelling]
            · split
              · simp_all [spelling]
              · split
                · simp_all [spelling]
                · split <;> simp [spelling]

/-- Every lexeme that is read has a character. -/
theorem next_spelling_ne_nil (c : Char) (cs : List Char) : (next c cs).1.spelling ≠ [] := by
  unfold next
  split
  · simp [spelling]
  · split
    · rename_i found h
      obtain ⟨marker, q, body, hx, -⟩ := quoted?_eq_some (show _ = some (found.1, found.2) from h)
      simp [hx, spelling]
    · split
      · simp [spelling]
      · split
        · simp [spelling]
        · split
          · rename_i found h
            obtain ⟨symbol, hfound, rfl⟩ := Option.map_eq_some_iff.1 h
            have hmem := List.mem_of_find?_eq_some hfound
            have hall : ∀ s ∈ operators, s ≠ [] := by decide
            exact hall symbol hmem
          · split
            · simp [spelling]
            · split
              · simp [spelling]
              · split
                · simp [spelling]
                · split <;> simp [spelling]

/-- Reading a lexeme leaves a shorter text. -/
theorem length_next_lt (c : Char) (cs : List Char) : (next c cs).2.length < (c :: cs).length := by
  have happ := congrArg List.length (next_append c cs)
  have hpos := List.length_pos_iff.2 (next_spelling_ne_nil c cs)
  simp only [List.length_append] at happ
  omega

/-! ### Reading all lexemes -/

/-- The lexemes of a text. -/
def scan : List Char → List Lexeme
  | [] => []
  | c :: cs => (next c cs).1 :: scan (next c cs).2
termination_by cs => cs.length
decreasing_by exact length_next_lt c cs

@[simp] theorem scan_nil : scan [] = [] := by rw [scan]

theorem scan_cons (c : Char) (cs : List Char) :
    scan (c :: cs) = (next c cs).1 :: scan (next c cs).2 := by rw [scan]

/-- The lexemes of a text spell that text. -/
theorem flatMap_spelling_scan (cs : List Char) : (scan cs).flatMap spelling = cs := by
  fun_induction scan cs with
  | case1 => rfl
  | case2 c cs ih => rw [List.flatMap_cons, ih, next_append]

end Lexeme

end Offside
