import Offside.Ast.Equality
import Offside.Grammar.Nesting

/-!
# Offside.Proofs.Depth

How deep f-strings stand **inside each other**. Main statement:
`FString.nesting_ends`, by which reading a text asks only for f-strings that are at
least five characters shorter, so that no more of them stand inside each other than
a fifth of the length of the text.

The recursion passes through three layers before it comes back: the text is cut at
its placeholders, the source of a placeholder has lexemes of its own, and the grammar
asks for an f-string where one of their tokens is one. `IsInside` is the way from one
text to the next, and `readLevels` takes that way a limited number of times.
-/

namespace Offside.FString

open Offside.Grammar (Reader)

variable {content inner : List Char} {n : Nat}

/-! ### One level -/

/-- A placeholder of `content` has an f-string with the text `inner` among its tokens. -/
def IsInside (inner content : List Char) : Prop :=
  ∃ source ∈ (cut content).sources, ∃ line, ∃ t ∈ Token.ofExpression source line,
    t.kind = .fstring ∧ t.text.toList = inner

/-- An f-string inside a text is shorter by the braces of the placeholder, its own marker
and its two quotes. -/
theorem IsInside.length_add_five_le (h : IsInside inner content) :
    inner.length + 5 ≤ content.length := by
  obtain ⟨source, hsource, line, t, ht, hkind, rfl⟩ := h
  have hinner := Token.length_fstring_add_three_le ht hkind
  have houter := length_source_add_two_le hsource
  omega

theorem wellFounded_isInside : WellFounded IsInside := by
  refine Subrelation.wf (fun {inner content} h => ?_) (measure List.length).wf
  have hshorter := h.length_add_five_le
  show inner.length < content.length
  omega

/-- Reading a text asks for the f-strings inside it only. -/
theorem eq_read_of_agrees {r : Reader} {line : Nat}
    (h : ∀ text n, IsInside text.toList content → r text n = read text.toList n) :
    (cut content).read line (embedded r line) = read content line := by
  rw [read_eq]
  refine Body.read_congr fun source hsource => embedded_congr fun t ht hkind => ?_
  exact h t.text t.line ⟨source, hsource, line, t, ht, hkind, rfl⟩

/-! ### Many levels -/

/-- From `content` one gets to `inner` by going `n` times to an f-string inside. -/
inductive Encloses : Nat → List Char → List Char → Prop where
  | here {content : List Char} : Encloses 0 content content
  | inside {n : Nat} {content next inner : List Char} :
      IsInside next content → Encloses n next inner → Encloses (n + 1) content inner

theorem Encloses.add_length_le (h : Encloses n content inner) :
    5 * n + inner.length ≤ content.length := by
  induction h with
  | here => omega
  | inside hinside _ ih =>
      have hshorter := hinside.length_add_five_le
      omega

/-- Read f-strings through `n` levels, and leave those below to `beyond`. -/
def readLevels (beyond : Reader) : Nat → Reader
  | 0 => beyond
  | n + 1 => fun text line => (cut text.toList).read line (embedded (readLevels beyond n) line)

/-- More levels than a fifth of the length are never used up. -/
theorem readLevels_eq_read (beyond : Reader) (text : String) (line : Nat)
    (h : text.toList.length / 5 < n) : readLevels beyond n text line = read text.toList line := by
  induction n generalizing text line with
  | zero => omega
  | succ n ih =>
      rw [readLevels]
      refine eq_read_of_agrees fun inner innerLine hinside => ih inner innerLine ?_
      have hshorter := hinside.length_add_five_le
      omega

/-- **Nested f-strings end.** Each f-string among the tokens of a placeholder is at least
five characters shorter than the text around it. Reading a text depends on how f-strings
are read only at those inside it, and the way inside has an end. No more f-strings stand
inside each other than a fifth of the length of the text, so one level of reading more
than that is enough, whatever `beyond` does with the f-strings that would be deeper. -/
theorem nesting_ends (content : List Char) :
    (∀ source ∈ (cut content).sources, ∀ line, ∀ t ∈ Token.ofExpression source line,
      t.kind = .fstring → t.text.toList.length + 5 ≤ content.length) ∧
    (∀ (r : Reader) (line : Nat),
      (∀ text n, IsInside text.toList content → r text n = read text.toList n) →
        (cut content).read line (embedded r line) = read content line) ∧
    Acc IsInside content ∧
    (∀ n inner, Encloses n content inner → n ≤ content.length / 5) ∧
    (∀ (beyond : Reader) (n line : Nat), content.length / 5 < n →
      readLevels beyond n (String.ofList content) line = read content line) := by
  refine ⟨?_, fun _ _ => eq_read_of_agrees, wellFounded_isInside.apply content, ?_, ?_⟩
  · intro source hsource line t ht hkind
    have hinside : IsInside t.text.toList content := ⟨source, hsource, line, t, ht, hkind, rfl⟩
    exact hinside.length_add_five_le
  · intro n inner hencloses
    have hlength := hencloses.add_length_le
    omega
  · intro beyond n line hn
    rw [readLevels_eq_read beyond (String.ofList content) line, String.toList_ofList]
    rwa [String.toList_ofList]

/-- Two f-strings inside each other, with nothing around them but what they need. -/
def twiceNested : List Char := "\x7bf'\x7bf\"\"\x7d'\x7d".toList

/-- A reader that refuses all f-strings. -/
def refusing : Reader := fun _ line => .error (.fstring line .unclosed)

theorem nesting_ends_twiceNested :
    Encloses 2 twiceNested [] ∧ (∀ n inner, Encloses n twiceNested inner → n ≤ 2) ∧
    readLevels refusing 3 (String.ofList twiceNested) 1 = read twiceNested 1 ∧
    (read twiceNested 1).toOption = some (["", ""], [.fstring ["", ""] [.fstring [""] []]]) ∧
    (readLevels refusing 2 (String.ofList twiceNested) 1).toOption = none := by
  obtain ⟨-, -, -, hencloses, hlevels⟩ := nesting_ends twiceNested
  have hfifth : twiceNested.length / 5 = 2 := by decide
  rw [hfifth] at hencloses hlevels
  have houter : IsInside "\x7bf\"\"\x7d".toList twiceNested :=
    ⟨"f'\x7bf\"\"\x7d'".toList, by decide +kernel, 1, ⟨.fstring, "\x7bf\"\"\x7d", 1⟩,
      by decide +kernel, rfl, rfl⟩
  have hinner : IsInside [] "\x7bf\"\"\x7d".toList :=
    ⟨"f\"\"".toList, by decide +kernel, 1, ⟨.fstring, "", 1⟩, by decide +kernel, rfl, rfl⟩
  exact ⟨.inside houter (.inside hinner .here), hencloses, hlevels refusing 3 1 (by decide),
    by decide +kernel, by decide +kernel⟩

end Offside.FString
