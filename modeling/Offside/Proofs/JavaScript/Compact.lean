import Mathlib.Data.List.Chain
import Offside.Proofs.JavaScript.Lexeme
import Offside.Text.Ranges

/-!
# Offside.Proofs.JavaScript.Compact

The lexemes of sums and products, **written without blanks between them, are cut
as they were except where two equal signs meet** (`scan_flatMap_code`): `a - -b`
becomes `a--b`, and there JavaScript reads a decrement. What becomes of the lexemes
is computed by `fuse`; `signsApart` says that nothing does.
-/

namespace Offside.Text

/-- The blanks, one by one. -/
def blanks : List Char :=
  blankRanges.ranges.flatMap fun r => (List.range' r.1 (r.2 + 1 - r.1)).map Char.ofNat

theorem mem_blanks {c : Char} (h : isBlank c = true) : c ∈ blanks := by
  obtain ⟨r, hr, hfirst, hlast⟩ := (blankRanges.covers_iff c).1 h
  refine List.mem_flatMap.2 ⟨r, hr, List.mem_map.2 ⟨c.toNat, ?_, Char.ofNat_toNat c⟩⟩
  rw [List.mem_range'_1]
  omega

/-- A character is no blank if it is in a class that has none. -/
theorem isBlank_eq_false_of_class {p : Char → Bool} {c : Char} (hc : p c = true)
    (hp : blanks.all (!p ·) = true) : isBlank c = false := by
  refine Bool.eq_false_iff.2 fun hblank => ?_
  have hnot := List.all_eq_true.1 hp c (mem_blanks hblank)
  rw [hc] at hnot
  cases hnot

end Offside.Text

namespace Offside.Target.Lexeme

/-! ### Texts of lexemes -/

/-- The text of a lexeme. -/
def code : Lexeme → List Char
  | name text => text.toList
  | number value => value.toCode.toList
  | string value => (Text.quote value).toList
  | punctuator symbol => symbol.toList
  | chunk begins ends text => chunkText begins ends text

/-- The characters before which a lexeme ends. -/
def ends : Lexeme → Char → Bool
  | name _ => endsName
  | number _ => endsNumber false
  | punctuator symbol => endsPunctuator symbol
  | string _ | chunk .. => anyChar

/-- The symbols of sums and products. -/
def termSymbols : List String := ["+", "-", "*", "(", ")"]

/-- The symbols of sums and products, and those that two equal signs become. -/
def arithmeticSymbols : List String := termSymbols ++ ["++", "--"]

/-- A lexeme is a name, a number or a symbol of sums and products. -/
def IsArithmetic : Lexeme → Prop
  | name text => isName text.toList = true
  | number value => ∃ m k, value = .finite false m k ∧ Binary64.IsCanonical m k
  | punctuator symbol => symbol ∈ arithmeticSymbols
  | string _ | chunk .. => False

theorem scans_code : {x : Lexeme} → x.IsArithmetic → Scans x.ends x.code [x]
  | name text, h => by
      have hname := (cuts_name h).scans
      rw [String.ofList_toList] at hname
      exact hname
  | number value, h => by
      obtain ⟨m, k, rfl, hcanonical⟩ := h
      refine (cuts_number hcanonical).scans.mono fun c hc => ?_
      obtain ⟨hname, hpoint⟩ := Bool.and_eq_true_iff.1 hc
      exact Bool.and_eq_true_iff.2 ⟨hname, by simpa using .inl (by simpa using hpoint)⟩
  | punctuator symbol, h => by
      have hall : ∀ s ∈ arithmeticSymbols, s.toList ∈ punctuators ∧ s.toList ≠ ['\x7d'] := by
        decide
      exact (cuts_punctuator (hall symbol h).1 (hall symbol h).2).scans

theorem code_ne_nil : {x : Lexeme} → x.IsArithmetic → x.code ≠ []
  | name text, h => by
      rintro hnil
      rw [IsArithmetic, show text.toList = [] from hnil] at h
      cases h
  | number value, h => by
      obtain ⟨m, k, rfl, hcanonical⟩ := h
      obtain ⟨whole, part, hliteral, -⟩ := Binary64.exists_literal_toCode hcanonical
      obtain ⟨c, cs, htext, -⟩ := hliteral.exists_cons
      exact List.ne_nil_of_mem (by rw [code, htext]; exact List.mem_cons_self)
  | punctuator symbol, h => by
      have hall : ∀ s ∈ arithmeticSymbols, s.toList ≠ [] := by decide
      exact hall symbol h

/-- The text of a lexeme has no blanks. -/
theorem isBlank_of_mem_code : {x : Lexeme} → x.IsArithmetic →
    ∀ c ∈ x.code, Text.isBlank c = false
  | name text, h => by
      intro c hc
      have hpart : isNamePart c = true := by
        obtain ⟨d, ds, htext⟩ := List.exists_cons_of_ne_nil (List.ne_nil_of_mem hc)
        have htext' : text.toList = d :: ds := htext
        rw [IsArithmetic, htext', isName, Bool.and_eq_true, List.all_eq_true] at h
        rw [htext] at hc
        rcases List.mem_cons.1 hc with rfl | hc
        · exact isNamePart_of_isNameStart h.1
        · exact h.2 c hc
      exact Text.isBlank_eq_false_of_class hpart (by decide)
  | number value, h => by
      obtain ⟨m, k, rfl, hcanonical⟩ := h
      obtain ⟨whole, part, hliteral, -⟩ := Binary64.exists_literal_toCode hcanonical
      intro c hc
      have hdigit := hliteral.isDigit_or_point c hc
      exact Text.isBlank_eq_false_of_class (p := fun c => c.isDigit || c = '.') hdigit (by decide)
  | punctuator symbol, h => by
      have hall : ∀ s ∈ arithmeticSymbols, s.toList.all (!Text.isBlank ·) = true := by decide
      intro c hc
      simpa using List.all_eq_true.1 (hall symbol h) c hc

theorem filter_code {x : Lexeme} (h : x.IsArithmetic) :
    x.code.filter (!Text.isBlank ·) = x.code :=
  List.filter_eq_self.2 fun c hc => by rw [isBlank_of_mem_code h c hc]; rfl

/-! ### Lexemes one after the other -/

/-- A lexeme ends where the next one starts, without a blank between them. -/
def EndsBefore (x y : Lexeme) : Prop := ∃ c, y.code.head? = some c ∧ x.ends c = true

/-- Lexemes that keep apart without blanks are cut as they were. -/
theorem scan_of_endsBefore {ls : List Lexeme} (h : ∀ x ∈ ls, x.IsArithmetic)
    (hchain : ls.IsChain EndsBefore) (depth : Nat) : scan depth (ls.flatMap code) = some ls := by
  induction ls with
  | nil => exact scan_nil depth
  | cons x ls ih =>
      obtain ⟨hx, hls⟩ := List.forall_mem_cons.1 h
      obtain ⟨hnext, hchain⟩ := List.isChain_cons.1 hchain
      have hends : ∀ c ∈ (ls.flatMap code).head?, x.ends c = true := by
        intro c hc
        cases ls with
        | nil => cases hc
        | cons y ls =>
            obtain ⟨d, hhead, hd⟩ := hnext y rfl
            rw [List.flatMap_cons, List.head?_append, hhead] at hc
            cases hc
            exact hd
      rw [List.flatMap_cons, scans_code hx depth _ hends, ih hls hchain]
      rfl

/-! ### Equal signs that meet -/

/-- A lexeme is a sign. -/
def isSign (x : Lexeme) : Bool := x = punctuator "+" || x = punctuator "-"

/-- The lexeme that two equal signs become. -/
def twice : Lexeme → Lexeme
  | punctuator symbol => punctuator (symbol ++ symbol)
  | x => x

/-- Nowhere does a sign follow the same sign. -/
def signsApart : List Lexeme → Bool
  | x :: y :: ls => !(x = y && isSign x) && signsApart (y :: ls)
  | _ => true

/-- The lexemes with two equal signs that meet as one lexeme. -/
def fuse : List Lexeme → List Lexeme
  | x :: y :: ls => if x = y && isSign x then twice x :: fuse ls else x :: fuse (y :: ls)
  | ls => ls

/-- A lexeme ends where the next one starts, or both are the same sign. -/
def Adjoins (x y : Lexeme) : Prop := EndsBefore x y ∨ (x = y && isSign x) = true

/-- What two equal signs become is one piece, whatever follows it. -/
theorem twice_of_isSign {x : Lexeme} (h : isSign x = true) :
    (twice x).code = x.code ++ x.code ∧ (twice x).IsArithmetic ∧ (twice x).ends = anyChar := by
  have hnone : extenders "++" = [] ∧ extenders "--" = [] := by decide
  rcases Bool.or_eq_true_iff.1 h with hx | hx
  · obtain rfl := of_decide_eq_true hx
    exact ⟨rfl, by simp [twice, IsArithmetic, arithmeticSymbols, termSymbols],
      funext fun c => congrArg (!List.contains · c) hnone.1⟩
  · obtain rfl := of_decide_eq_true hx
    exact ⟨rfl, by simp [twice, IsArithmetic, arithmeticSymbols, termSymbols],
      funext fun c => congrArg (!List.contains · c) hnone.2⟩

theorem flatMap_code_fuse (ls : List Lexeme) : (fuse ls).flatMap code = ls.flatMap code := by
  fun_induction fuse ls with
  | case1 x y ls hsigns ih =>
      obtain ⟨hxy, hsign⟩ := Bool.and_eq_true_iff.1 hsigns
      obtain rfl := of_decide_eq_true hxy
      rw [List.flatMap_cons, ih, (twice_of_isSign hsign).1, List.append_assoc]
      rfl
  | case2 x y ls _ ih =>
      rw [List.flatMap_cons, ih]
      rfl
  | case3 => rfl

theorem mem_fuse {ls : List Lexeme} {x : Lexeme} (h : x ∈ fuse ls) :
    x ∈ ls ∨ ∃ y, isSign y = true ∧ x = twice y := by
  fun_induction fuse ls with
  | case1 y z ls hsigns ih =>
      rcases List.mem_cons.1 h with rfl | h
      · exact .inr ⟨y, (Bool.and_eq_true_iff.1 hsigns).2, rfl⟩
      · exact (ih h).imp_left fun hmem => List.mem_cons_of_mem y (List.mem_cons_of_mem z hmem)
  | case2 y z ls _ ih =>
      rcases List.mem_cons.1 h with rfl | h
      · exact .inl List.mem_cons_self
      · exact (ih h).imp_left (List.mem_cons_of_mem y)
  | case3 => exact .inl h

theorem fuse_of_signsApart {ls : List Lexeme} (h : signsApart ls = true) : fuse ls = ls := by
  fun_induction fuse ls with
  | case1 x y ls hsigns ih =>
      rw [signsApart, hsigns] at h
      cases h
  | case2 x y ls hsigns ih =>
      rw [signsApart, Bool.and_eq_true] at h
      rw [ih h.2]
  | case3 => rfl

theorem exists_twice_mem_fuse {ls : List Lexeme} (h : signsApart ls = false) :
    ∃ x, isSign x = true ∧ twice x ∈ fuse ls := by
  fun_induction fuse ls with
  | case1 x y ls hsigns ih => exact ⟨x, (Bool.and_eq_true_iff.1 hsigns).2, List.mem_cons_self⟩
  | case2 x y ls hsigns ih =>
      rw [signsApart, Bool.eq_false_iff.2 hsigns, Bool.not_false, Bool.true_and] at h
      obtain ⟨z, hsign, hmem⟩ := ih h
      exact ⟨z, hsign, List.mem_cons_of_mem x hmem⟩
  | case3 ls hshort =>
      rw [signsApart] at h
      · cases h
      · exact hshort

theorem isArithmetic_of_mem_fuse {ls : List Lexeme} (h : ∀ x ∈ ls, x.IsArithmetic) :
    ∀ x ∈ fuse ls, x.IsArithmetic := by
  intro x hx
  rcases mem_fuse hx with hmem | ⟨y, hsign, rfl⟩
  · exact h x hmem
  · exact (twice_of_isSign hsign).2.1

theorem head_fuse {y z : Lexeme} {ls : List Lexeme} (h : z ∈ (fuse (y :: ls)).head?) :
    z = y ∨ isSign y = true ∧ z = twice y := by
  cases ls with
  | nil => exact .inl (Option.some.inj h).symm
  | cons x ls =>
      rw [fuse] at h
      split at h
      · rename_i hsigns
        exact .inr ⟨(Bool.and_eq_true_iff.1 hsigns).2, (Option.some.inj h).symm⟩
      · exact .inl (Option.some.inj h).symm

theorem EndsBefore.twice {x y : Lexeme} (h : EndsBefore x y) (hsign : isSign y = true) :
    EndsBefore x y.twice := by
  obtain ⟨c, hhead, hc⟩ := h
  refine ⟨c, ?_, hc⟩
  rw [(twice_of_isSign hsign).1, List.head?_append, hhead]
  rfl

theorem isChain_fuse {ls : List Lexeme} (h : ∀ x ∈ ls, x.IsArithmetic)
    (hchain : ls.IsChain Adjoins) : (fuse ls).IsChain EndsBefore := by
  fun_induction fuse ls with
  | case1 x y ls hsigns ih =>
      have hls : ∀ z ∈ ls, z.IsArithmetic := fun z hz =>
        h z (List.mem_cons_of_mem x (List.mem_cons_of_mem y hz))
      refine List.isChain_cons.2 ⟨fun z hz => ?_, ih hls hchain.tail.tail⟩
      have hz' := isArithmetic_of_mem_fuse hls z (List.mem_of_mem_head? hz)
      obtain ⟨c, cs, hcode⟩ := List.exists_cons_of_ne_nil (code_ne_nil hz')
      refine ⟨c, by rw [hcode]; rfl, ?_⟩
      rw [(twice_of_isSign (Bool.and_eq_true_iff.1 hsigns).2).2.2]
      rfl
  | case2 x y ls hsigns ih =>
      obtain ⟨hxy, hchain⟩ := List.isChain_cons_cons.1 hchain
      have hends : EndsBefore x y := hxy.resolve_right hsigns
      refine List.isChain_cons.2
        ⟨fun z hz => ?_, ih (fun z hz => h z (List.mem_cons_of_mem x hz)) hchain⟩
      rcases head_fuse hz with rfl | ⟨hsign, rfl⟩
      · exact hends
      · exact hends.twice hsign
  | case3 ls hshort =>
      match ls with
      | [] => exact .nil
      | [x] => exact .singleton x
      | x :: y :: ls => exact absurd rfl (hshort x y ls)

/-- The texts of lexemes one after the other are cut into the lexemes, apart from
equal signs that meet. -/
theorem scan_flatMap_code {ls : List Lexeme} (h : ∀ x ∈ ls, x.IsArithmetic)
    (hchain : ls.IsChain Adjoins) (depth : Nat) :
    scan depth (ls.flatMap code) = some (fuse ls) := by
  rw [← flatMap_code_fuse]
  exact scan_of_endsBefore (isArithmetic_of_mem_fuse h) (isChain_fuse h hchain) depth

end Offside.Target.Lexeme
