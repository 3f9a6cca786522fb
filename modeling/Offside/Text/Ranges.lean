/-!
# Offside.Text.Ranges

Sets of characters, given by ascending ranges of code points. A search goes
through the ranges from the left and is over at the first one that begins after
the character; `covers_iff` says that this loses nothing.

The characters with the Unicode property White_Space are such a set.
-/

namespace Offside.Text

/-- No range is empty, and each ends before the next one begins. -/
def areAscending : List (Nat × Nat) → Bool
  | [] => true
  | [(first, last)] => first ≤ last
  | (first, last) :: next :: rest =>
    first ≤ last && last < next.1 && areAscending (next :: rest)

/-- Closed ranges of code points, from the first to the last of each, in ascending
order. -/
structure Ranges where
  ranges : List (Nat × Nat)
  ascending : areAscending ranges = true

namespace Ranges

/-- The search for a range that holds a character, from the left. -/
def search (c : Char) : List (Nat × Nat) → Bool
  | [] => false
  | (first, last) :: rest => first ≤ c.toNat && (c.toNat ≤ last || search c rest)

/-- A character is in one of the ranges. -/
def covers (r : Ranges) (c : Char) : Bool := search c r.ranges

theorem areAscending_tail {r : Nat × Nat} {ranges : List (Nat × Nat)}
    (h : areAscending (r :: ranges) = true) : areAscending ranges = true := by
  cases ranges with
  | nil => rfl
  | cons next rest => simp_all [areAscending]

/-- Ranges that follow a range begin after it. -/
theorem lt_of_areAscending {r : Nat × Nat} {ranges : List (Nat × Nat)}
    (h : areAscending (r :: ranges) = true) : ∀ s ∈ ranges, r.1 < s.1 := by
  induction ranges generalizing r with
  | nil => simp
  | cons next rest ih =>
    have after := ih (areAscending_tail h)
    simp only [areAscending, Bool.and_eq_true, decide_eq_true_eq] at h
    intro s hs
    rcases List.mem_cons.1 hs with rfl | hs
    · omega
    · have := after s hs
      omega

theorem search_iff {ranges : List (Nat × Nat)} (h : areAscending ranges = true) (c : Char) :
    search c ranges = true ↔ ∃ r ∈ ranges, r.1 ≤ c.toNat ∧ c.toNat ≤ r.2 := by
  induction ranges with
  | nil => simp [search]
  | cons r rest ih =>
    have after := lt_of_areAscending h
    simp only [search, Bool.and_eq_true, Bool.or_eq_true, decide_eq_true_eq,
      ih (areAscending_tail h), List.mem_cons, exists_eq_or_imp]
    constructor
    · rintro ⟨begun, inside | ⟨s, hs, found⟩⟩
      · exact .inl ⟨begun, inside⟩
      · exact .inr ⟨s, hs, found⟩
    · rintro (inside | ⟨s, hs, found⟩)
      · exact ⟨inside.1, .inl inside.2⟩
      · have := after s hs
        exact ⟨by omega, .inr ⟨s, hs, found⟩⟩

/-- The search finds every range that holds the character. -/
theorem covers_iff (r : Ranges) (c : Char) :
    r.covers c = true ↔ ∃ s ∈ r.ranges, s.1 ≤ c.toNat ∧ c.toNat ≤ s.2 :=
  search_iff r.ascending c

end Ranges

/-! ### Blanks -/

/-- The ranges of code points with the property White_Space. -/
def blankRanges : Ranges where
  ranges :=
    [(0x9, 0xd), (0x20, 0x20), (0x85, 0x85), (0xa0, 0xa0), (0x1680, 0x1680), (0x2000, 0x200a),
      (0x2028, 0x2029), (0x202f, 0x202f), (0x205f, 0x205f), (0x3000, 0x3000)]
  ascending := by decide

/-- A character has the property White_Space. -/
def isBlank (c : Char) : Bool := blankRanges.covers c

/-- A text without its blanks. -/
def withoutBlanks (s : String) : String := String.ofList (s.toList.filter (!isBlank ·))

end Offside.Text
