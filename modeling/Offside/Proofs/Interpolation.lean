import Offside.Ast.Equality
import Offside.Grammar.Cursor
import Offside.Grammar.Nesting

/-!
# Offside.Proofs.Interpolation

The grammar of f-strings. Main statement: `FString.read_eq_ok_iff_exists_holes`,
by which reading accepts **exactly the texts that are written** from text pieces
with their braces doubled and from placeholders between them (`weave`).

A placeholder has balanced braces and starts with none, so the brace that opens
it has no partner for a doubled one. Doubled braces are paired from the left, so
text that ends in a brace may stand before a placeholder, and text that starts
with one may follow it: no condition on the text pieces is needed.
-/

namespace Offside.FString

/-! ### Writing -/

/-- The characters that write a character of a text piece. -/
def encodeChar (c : Char) : List Char := if c = '\x7b' ∨ c = '\x7d' then [c, c] else [c]

/-- A text piece with every brace doubled. -/
def encode (text : List Char) : List Char := text.flatMap encodeChar

/-- Every brace in a text has its partner, where the text closes `depth` more braces
than it opens and these are open before it. -/
structure Closes (depth : Nat) (text : List Char) : Prop where
  /-- No brace is closed that is not open. -/
  count_le : ∀ before, before <+: text → before.count '\x7d' ≤ before.count '\x7b' + depth
  count_eq : text.count '\x7d' = text.count '\x7b' + depth

/-- As many braces are opened as closed, and none is closed before it is open. -/
def IsBalanced (text : List Char) : Prop := Closes 0 text

/-- The source of a placeholder, by its braces: they are balanced, and none of them
is the first character. -/
structure IsEnclosed (source : List Char) : Prop where
  isBalanced : IsBalanced source
  head_ne : source.head? ≠ some '\x7b'

/-- A placeholder, and the text piece after it. -/
structure Hole where
  /-- What stands between the braces. -/
  source : List Char
  /-- The expression that the source stands for. -/
  expression : Expr
  /-- The text up to the next placeholder or the end. -/
  text : List Char

/-- The placeholder can stand in an f-string on `line`: its braces allow it, and its
source is read as its expression from start to end. -/
structure Hole.IsRead (line : Nat) (hole : Hole) : Prop where
  isEnclosed : IsEnclosed hole.source
  reads : ∃ after, (Grammar.Cursor.ofTokens (Token.ofExpression hole.source line)).expression 0 =
    (.ok hole.expression, after) ∧ after.isAtEnd = true

/-- A text piece, then placeholders in braces, each with the text piece after it. -/
def weave (first : List Char) (holes : List Hole) : List Char :=
  encode first ++ holes.flatMap fun hole =>
    '\x7b' :: (hole.source ++ '\x7d' :: encode hole.text)

theorem encode_cons (c : Char) (text : List Char) :
    encode (c :: text) = encodeChar c ++ encode text := List.flatMap_cons

theorem weave_cons (c : Char) (first : List Char) (holes : List Hole) :
    weave (c :: first) holes = encodeChar c ++ weave first holes := by
  rw [weave, encode_cons, List.append_assoc, weave]

theorem weave_hole (hole : Hole) (holes : List Hole) :
    weave [] (hole :: holes) =
      '\x7b' :: (hole.source ++ '\x7d' :: weave hole.text holes) := by
  simp [weave, encode]

/-! ### Balance -/

section Balance

variable {depth : Nat} {c : Char} {cs : List Char}

theorem closes_nil_iff : Closes depth [] ↔ depth = 0 := by
  constructor
  · intro h
    have hcount := h.count_eq
    simp only [List.count_nil] at hcount
    omega
  · rintro rfl
    refine ⟨fun before hbefore => ?_, rfl⟩
    rw [List.prefix_nil.1 hbefore]
    exact Nat.le_refl _

/-- What holds of the beginnings of a text holds of none of it and of its first
character with the beginnings of the rest. -/
theorem forall_prefix_cons {P : List Char → Prop} :
    (∀ before, before <+: c :: cs → P before) ↔
      P [] ∧ ∀ before, before <+: cs → P (c :: before) := by
  constructor
  · intro h
    refine ⟨h [] List.nil_prefix, fun before hbefore => h _ ?_⟩
    exact List.cons_prefix_cons.2 ⟨rfl, hbefore⟩
  · rintro ⟨hnil, hcons⟩ before hbefore
    cases before with
    | nil => exact hnil
    | cons d before =>
        obtain ⟨rfl, hrest⟩ := List.cons_prefix_cons.1 hbefore
        exact hcons before hrest

theorem closes_iff : Closes depth cs ↔
    (∀ before, before <+: cs → before.count '\x7d' ≤ before.count '\x7b' + depth) ∧
      cs.count '\x7d' = cs.count '\x7b' + depth :=
  ⟨fun h => ⟨h.count_le, h.count_eq⟩, fun h => ⟨h.1, h.2⟩⟩

theorem closes_opening_iff : Closes depth ('\x7b' :: cs) ↔ Closes (depth + 1) cs := by
  have hclosing (text : List Char) : ('\x7b' :: text).count '\x7d' = text.count '\x7d' :=
    List.count_cons_of_ne (by decide)
  simp only [closes_iff, forall_prefix_cons, hclosing, List.count_cons_self, List.count_nil]
  have hsum (n : Nat) : n + 1 + depth = n + (depth + 1) := by omega
  simp only [hsum, Nat.zero_le, true_and]

theorem closes_closing_iff :
    Closes depth ('\x7d' :: cs) ↔ ∃ outer, depth = outer + 1 ∧ Closes outer cs := by
  have hopening (text : List Char) : ('\x7d' :: text).count '\x7b' = text.count '\x7b' :=
    List.count_cons_of_ne (by decide)
  simp only [closes_iff, forall_prefix_cons, hopening, List.count_cons_self, List.count_nil]
  constructor
  · rintro ⟨⟨-, hle⟩, heq⟩
    -- The brace by itself is a beginning, so one has to be open before it.
    have hopen := hle [] List.nil_prefix
    simp only [List.count_nil] at hopen
    obtain ⟨outer, rfl⟩ : ∃ outer, depth = outer + 1 := ⟨depth - 1, by omega⟩
    exact ⟨outer, rfl, fun before hbefore => by have := hle before hbefore; omega, by omega⟩
  · rintro ⟨outer, rfl, hle, heq⟩
    exact ⟨⟨Nat.zero_le _, fun before hbefore => by have := hle before hbefore; omega⟩, by omega⟩

theorem closes_cons_iff (hopening : c ≠ '\x7b') (hclosing : c ≠ '\x7d') :
    Closes depth (c :: cs) ↔ Closes depth cs := by
  have hopening' (text : List Char) : (c :: text).count '\x7b' = text.count '\x7b' :=
    List.count_cons_of_ne hopening
  have hclosing' (text : List Char) : (c :: text).count '\x7d' = text.count '\x7d' :=
    List.count_cons_of_ne hclosing
  simp only [closes_iff, forall_prefix_cons, hopening', hclosing', List.count_nil, Nat.zero_le,
    true_and]

end Balance

/-! ### Placeholders -/

theorem map_cons_eq_some_iff {c : Char} {found : Option (List Char × List Char)}
    {source rest : List Char} :
    (found.map fun (tail, rest) => (c :: tail, rest)) = some (source, rest) ↔
      ∃ tail, source = c :: tail ∧ found = some (tail, rest) := by
  rw [Option.map_eq_some_iff]
  constructor
  · rintro ⟨⟨tail, rest'⟩, hfound, heq⟩
    obtain ⟨rfl, rfl⟩ := Prod.mk.inj heq
    exact ⟨tail, rfl, hfound⟩
  · rintro ⟨tail, rfl, hfound⟩
    exact ⟨(tail, rest), hfound, rfl⟩

theorem cons_eq_append_cons_iff {c : Char} {cs source rest : List Char} :
    c :: cs = source ++ '\x7d' :: rest ↔
      (source = [] ∧ c = '\x7d' ∧ cs = rest) ∨
        ∃ tail, source = c :: tail ∧ cs = tail ++ '\x7d' :: rest := by
  cases source with
  | nil => simp
  | cons d tail => simp [and_assoc, eq_comm]

/-- A placeholder ends at the brace that closes it: the source before that brace
closes what is open around it, and nothing more. -/
theorem placeholder?_eq_some_iff {depth : Nat} {cs source rest : List Char} :
    placeholder? depth cs = some (source, rest) ↔
      cs = source ++ '\x7d' :: rest ∧ Closes depth source := by
  fun_induction placeholder? depth cs generalizing source rest with
  | case1 => simp
  | case2 depth cs ih =>
      simp only [map_cons_eq_some_iff, ih, cons_eq_append_cons_iff]
      constructor
      · rintro ⟨tail, rfl, hcs, hcloses⟩
        exact ⟨.inr ⟨tail, rfl, hcs⟩, closes_opening_iff.2 hcloses⟩
      · rintro ⟨⟨-, hbrace, -⟩ | ⟨tail, rfl, hcs⟩, hcloses⟩
        · exact absurd hbrace (by decide)
        · exact ⟨tail, rfl, hcs, closes_opening_iff.1 hcloses⟩
  | case3 cs =>
      rw [cons_eq_append_cons_iff]
      constructor
      · intro h
        obtain ⟨rfl, rfl⟩ := Prod.mk.inj (Option.some.inj h)
        exact ⟨.inl ⟨rfl, rfl, rfl⟩, closes_nil_iff.2 rfl⟩
      · rintro ⟨⟨rfl, -, rfl⟩ | ⟨tail, rfl, -⟩, hcloses⟩
        · rfl
        · obtain ⟨outer, hdepth, -⟩ := closes_closing_iff.1 hcloses
          cases hdepth
  | case4 cs outer ih =>
      simp only [map_cons_eq_some_iff, ih, cons_eq_append_cons_iff]
      constructor
      · rintro ⟨tail, rfl, hcs, hcloses⟩
        exact ⟨.inr ⟨tail, rfl, hcs⟩, closes_closing_iff.2 ⟨outer, rfl, hcloses⟩⟩
      · rintro ⟨⟨rfl, -, -⟩ | ⟨tail, rfl, hcs⟩, hcloses⟩
        · cases closes_nil_iff.1 hcloses
        · obtain ⟨outer', hdepth, hinner⟩ := closes_closing_iff.1 hcloses
          obtain rfl := Nat.succ.inj hdepth
          exact ⟨tail, rfl, hcs, hinner⟩
  | case5 depth c cs hopening hclosing ih =>
      simp only [map_cons_eq_some_iff, ih, cons_eq_append_cons_iff]
      constructor
      · rintro ⟨tail, rfl, hcs, hcloses⟩
        exact ⟨.inr ⟨tail, rfl, hcs⟩, (closes_cons_iff hopening hclosing).2 hcloses⟩
      · rintro ⟨⟨-, hbrace, -⟩ | ⟨tail, rfl, hcs⟩, hcloses⟩
        · exact absurd hbrace hclosing
        · exact ⟨tail, rfl, hcs, (closes_cons_iff hopening hclosing).1 hcloses⟩

/-! ### Cutting -/

/-- The text of an f-string cut at its placeholders. -/
def Body.ofHoles (first : List Char) : List Hole → Body
  | [] => .text first
  | place :: holes => .hole first place.source (ofHoles place.text holes)

theorem Body.push_eq_ofHoles_iff {c : Char} {b : Body} {first : List Char} {holes : List Hole} :
    b.push c = .ofHoles first holes ↔ ∃ tail, first = c :: tail ∧ b = .ofHoles tail holes := by
  cases holes with
  | nil => cases b <;> simp [push, ofHoles, eq_comm]
  | cons place holes =>
      cases b with
      | text chars | broken fault => simp [push, ofHoles]
      | hole chars source rest =>
          simp only [push, ofHoles, hole.injEq]
          constructor
          · rintro ⟨rfl, hrest⟩
            exact ⟨chars, rfl, rfl, hrest⟩
          · rintro ⟨tail, rfl, rfl, hrest⟩
            exact ⟨rfl, hrest⟩

theorem cut_encodeChar (c : Char) (rest : List Char) :
    cut (encodeChar c ++ rest) = (cut rest).push c := by
  rw [encodeChar]
  split
  · rename_i hbrace
    rcases hbrace with rfl | rfl
    · rw [List.cons_append, List.cons_append, List.nil_append, cut]
    · rw [List.cons_append, List.cons_append, List.nil_append, cut]
  · rename_i hbrace
    rw [not_or] at hbrace
    rw [List.cons_append, List.nil_append, cut]
    all_goals simp [hbrace]

theorem cut_placeholder {source rest : List Char} (h : IsEnclosed source) :
    cut ('\x7b' :: (source ++ '\x7d' :: rest)) = .hole [] source (cut rest) := by
  have hplace : placeholder? 0 (source ++ '\x7d' :: rest) = some (source, rest) :=
    placeholder?_eq_some_iff.2 ⟨rfl, h.isBalanced⟩
  have hnext : ∀ tail, source ++ '\x7d' :: rest ≠ '\x7b' :: tail := by
    intro tail heq
    cases source with
    | nil => cases heq
    | cons d ds => exact h.head_ne (by rw [(List.cons.inj heq).1]; rfl)
  rw [cut]
  · split
    · rename_i found
      obtain ⟨rfl, rfl⟩ := Prod.mk.inj (Option.some.inj (hplace.symm.trans found))
      rfl
    · rename_i found
      cases hplace.symm.trans found
  · exact hnext

/-- A text that is written with placeholders is cut at them. -/
theorem cut_weave {first : List Char} {holes : List Hole}
    (h : ∀ hole ∈ holes, IsEnclosed hole.source) :
    cut (weave first holes) = .ofHoles first holes := by
  induction first with
  | nil =>
      cases holes with
      | nil =>
          rw [weave, encode, List.flatMap_nil, List.flatMap_nil, List.append_nil, cut]
          rfl
      | cons hole holes =>
          obtain ⟨hhole, hholes⟩ := List.forall_mem_cons.1 h
          rw [weave_hole, cut_placeholder hhole, cut_weave hholes, Body.ofHoles]
  | cons c first ih =>
      rw [weave_cons, cut_encodeChar, ih]
      exact Body.push_eq_ofHoles_iff.2 ⟨first, rfl, rfl⟩
termination_by holes.length

/-- A text is written with these placeholders. -/
def IsWoven (content first : List Char) (holes : List Hole) : Prop :=
  content = weave first holes ∧ ∀ hole ∈ holes, IsEnclosed hole.source

theorem isWoven_of_push {c : Char} {cs first : List Char} {holes : List Hole}
    (ih : ∀ {first holes}, cut cs = .ofHoles first holes → IsWoven cs first holes)
    (h : (cut cs).push c = .ofHoles first holes) : IsWoven (encodeChar c ++ cs) first holes := by
  obtain ⟨tail, rfl, hcut⟩ := Body.push_eq_ofHoles_iff.1 h
  obtain ⟨hweave, hholes⟩ := ih hcut
  exact ⟨by rw [weave_cons, hweave], hholes⟩

/-- A text that is cut at its placeholders is written with them. -/
theorem isWoven_of_cut {content first : List Char} {holes : List Hole}
    (h : cut content = .ofHoles first holes) : IsWoven content first holes := by
  fun_induction cut content generalizing first holes with
  | case1 =>
      cases holes with
      | nil =>
          obtain rfl := Body.text.inj h
          exact ⟨rfl, by simp⟩
      | cons hole holes => cases h
  | case2 cs ih | case5 cs ih => exact isWoven_of_push ih h
  | case3 cs hnext source rest hplace ih =>
      obtain ⟨rfl, hcloses⟩ := placeholder?_eq_some_iff.1 hplace
      cases holes with
      | nil => cases h
      | cons hole holes =>
          obtain ⟨rfl, rfl, hrest⟩ := Body.hole.inj h
          obtain ⟨hweave, hholes⟩ := ih hrest
          refine ⟨by rw [weave_hole, hweave], List.forall_mem_cons.2 ⟨⟨hcloses, ?_⟩, hholes⟩⟩
          intro hhead
          obtain ⟨tail, htail⟩ := List.head?_eq_some_iff.1 hhead
          rw [htail] at hnext
          exact hnext _ rfl
  | case4 | case6 => cases holes <;> cases h
  | case7 c cs _ hopening _ hclosing ih =>
      have hplain : encodeChar c = [c] := if_neg (not_or.2 ⟨hopening, hclosing⟩)
      have hwoven := isWoven_of_push ih h
      rwa [hplain] at hwoven

/-! ### Reading -/

/-- The text that a text piece stands for. -/
def quasi (text : List Char) : String := Text.unescape (String.ofList text)

/-- A text that is cut at its placeholders is read piece by piece. -/
theorem Body.read_ofHoles {line : Nat} {expression : List Char → Except Failure Expr}
    {holes : List Hole} (h : ∀ hole ∈ holes, expression hole.source = .ok hole.expression)
    (first : List Char) :
    (ofHoles first holes).read line expression =
      .ok ((first :: holes.map Hole.text).map quasi, holes.map Hole.expression) := by
  induction holes generalizing first with
  | nil => simp [ofHoles, Body.read, quasi, Text.unescape]
  | cons place holes ih =>
      obtain ⟨hplace, hholes⟩ := List.forall_mem_cons.1 h
      rw [ofHoles, Body.read, hplace, ih hholes]
      simp [bind, Except.bind, pure, Except.pure, quasi, Text.unescape]

/-- What is read has been cut at its placeholders, and each of them is read as an
expression. -/
theorem Body.exists_holes_of_read {line : Nat} {expression : List Char → Except Failure Expr}
    {b : Body} {parts : List String × List Expr} (h : b.read line expression = .ok parts) :
    ∃ first holes, b = .ofHoles first holes ∧
      (∀ hole ∈ holes, expression hole.source = .ok hole.expression) ∧
      parts = ((first :: holes.map Hole.text).map quasi, holes.map Hole.expression) := by
  suffices hholes : ∃ first holes, b = .ofHoles first holes ∧
      ∀ hole ∈ holes, expression hole.source = .ok hole.expression by
    obtain ⟨first, holes, rfl, hread⟩ := hholes
    have hparts := Except.ok.inj (h.symm.trans (read_ofHoles hread first))
    exact ⟨first, holes, rfl, hread, hparts⟩
  induction b generalizing parts with
  | text chars => exact ⟨chars, [], rfl, by simp⟩
  | hole chars source rest ih =>
      cases hplace : expression source with
      | error failure =>
          rw [Body.read, hplace] at h
          cases h
      | ok e =>
          cases hrest : rest.read line expression with
          | error failure =>
              rw [Body.read, hplace, hrest] at h
              cases h
          | ok parts' =>
              obtain ⟨text, holes, rfl, hholes⟩ := ih hrest
              exact ⟨chars, ⟨source, e, text⟩ :: holes, rfl,
                List.forall_mem_cons.2 ⟨hplace, hholes⟩⟩
  | broken fault => cases h

/-- The source in a placeholder is read to its end. -/
theorem embedded_eq_ok_iff {line : Nat} {source : List Char} {e : Expr} :
    embedded (fun inner innerLine => read inner.toList innerLine) line source = .ok e ↔
      ∃ after, (Grammar.Cursor.ofTokens (Token.ofExpression source line)).expression 0 =
        (.ok e, after) ∧ after.isAtEnd = true := by
  rw [embedded, whole]
  constructor
  · intro h
    split at h
    · rename_i e' hrun
      obtain ⟨hresult, hrest⟩ := Prod.mk.inj hrun
      obtain rfl := Except.ok.inj h
      exact ⟨_, Prod.ext hresult rfl, List.isEmpty_iff.2 hrest⟩
    · cases h
    · cases h
  · rintro ⟨after, hread, hend⟩
    obtain ⟨hresult, rfl⟩ := Prod.mk.inj hread
    have hrest := List.isEmpty_iff.1 hend
    split
    · rename_i e' hrun
      exact congrArg Except.ok (Except.ok.inj ((Prod.mk.inj hrun).1.symm.trans hresult))
    · rename_i hrun
      cases (Prod.mk.inj hrun).2.symm.trans hrest
    · rename_i hrun
      cases (Prod.mk.inj hrun).1.symm.trans hresult

/-- **The texts of f-strings.** A text is read as the text pieces `quasis` and the
expressions `es` exactly if it is written from text pieces with doubled braces and
from placeholders between them, which have balanced braces, do not start with one
and are read as `es`. So there is always one text piece more than there are
expressions. -/
theorem read_eq_ok_iff_exists_holes (content : List Char) (line : Nat) (quasis : List String)
    (es : List Expr) :
    (read content line = .ok (quasis, es) ↔
      ∃ (first : List Char) (holes : List Hole),
        content = weave first holes ∧ (∀ hole ∈ holes, hole.IsRead line) ∧
          quasis = (first :: holes.map Hole.text).map quasi ∧ es = holes.map Hole.expression) ∧
    (read content line = .ok (quasis, es) → quasis.length = es.length + 1) := by
  have hread : read content line = .ok (quasis, es) ↔
      ∃ (first : List Char) (holes : List Hole),
        content = weave first holes ∧ (∀ hole ∈ holes, hole.IsRead line) ∧
          quasis = (first :: holes.map Hole.text).map quasi ∧
          es = holes.map Hole.expression := by
    rw [read_eq]
    constructor
    · intro h
      obtain ⟨first, holes, hcut, hembedded, hparts⟩ := Body.exists_holes_of_read h
      obtain ⟨hweave, henclosed⟩ := isWoven_of_cut hcut
      obtain ⟨hquasis, hes⟩ := Prod.mk.inj hparts
      refine ⟨first, holes, hweave, fun hole hhole => ?_, hquasis, hes⟩
      exact ⟨henclosed hole hhole, embedded_eq_ok_iff.1 (hembedded hole hhole)⟩
    · rintro ⟨first, holes, rfl, hholes, rfl, rfl⟩
      rw [cut_weave fun hole hhole => (hholes hole hhole).isEnclosed]
      exact Body.read_ofHoles
        (fun hole hhole => embedded_eq_ok_iff.2 (hholes hole hhole).reads) first
  refine ⟨hread, fun h => ?_⟩
  obtain ⟨first, holes, -, -, rfl, rfl⟩ := hread.1 h
  simp

-- Of three braces the first two are text before a placeholder, the last two after it.
example : (read "\x7b\x7b\x7ba\x7d\x7d\x7d".toList 1).toOption =
    some (["\x7b", "\x7d"], [.ident "a"]) := by decide +kernel

end Offside.FString
