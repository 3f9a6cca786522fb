import Offside.Decimal.Binary64

/-!
# Offside.Decimal.Shortest

The decimal with the fewest digits that reads back as a given binary64 number,
and of those the nearest to it.

For 1, 2, … 17 digits the two neighbours of the number with that many digits are
candidates, and a candidate counts if the binary64 number nearest to it is the
given one. Seventeen digits always suffice; the last resort is the exact
decimal of the number.
-/

namespace Offside.Shortest

/-- Where a number goes that lies halfway between two candidates. -/
inductive Tie where
  /-- To the greater candidate. -/
  | up
  /-- To the candidate with the even last digit. -/
  | even
deriving DecidableEq, Repr

/-- The number `mantissa * 2 ^ exponent` as a ratio of natural numbers. -/
def ratio (mantissa : Nat) (exponent : Int) : Nat × Nat :=
  if 0 ≤ exponent then (mantissa * Nat.pow 2 exponent.toNat, 1)
  else (mantissa, Nat.pow 2 (-exponent).toNat)

/-- The ratio `num / den`, in units of ten to the `exponent`. -/
def inUnits (num den : Nat) (exponent : Int) : Nat × Nat :=
  if 0 ≤ exponent then (num, den * Nat.pow 10 exponent.toNat)
  else (num * Nat.pow 10 (-exponent).toNat, den)

/-- The ratio `num / den` is below ten to the `exponent`. -/
def isBelow (num den : Nat) (exponent : Int) : Bool :=
  let (n, d) := inUnits num den exponent
  n < d

/-- The least power of ten above the number `mantissa * 2 ^ exponent`. The
binary length of the number tells it up to two places. -/
def top (mantissa : Nat) (exponent : Int) : Int :=
  let guess := ((mantissa.log2 : Int) + exponent) * 30103 / 100000
  let (num, den) := ratio mantissa exponent
  if isBelow num den guess then guess
  else if isBelow num den (guess + 1) then guess + 1
  else guess + 2

/-- The candidate with `count` digits, if one reads back as
`mantissa * 2 ^ exponent`. -/
def candidate? (tie : Tie) (mantissa : Nat) (exponent : Int) (count : Nat) : Option Decimal :=
  let grid := top mantissa exponent - count
  let (num, den) := ratio mantissa exponent
  let (n, d) := inUnits num den grid
  let low : Decimal := Decimal.trim ⟨n / d, grid⟩
  let high : Decimal := Decimal.trim ⟨n / d + 1, grid⟩
  let readsBack (c : Decimal) : Bool :=
    Binary64.ofDecimal false c = .finite false mantissa exponent
  let lowIsNearer : Bool :=
    2 * (n % d) < d ∨ (2 * (n % d) = d ∧ tie = .even ∧ n / d % 2 = 0)
  if readsBack low ∧ (lowIsNearer ∨ ¬ readsBack high) then some low
  else if readsBack high then some high
  else none

/-- The exact decimal of `mantissa * 2 ^ exponent`. -/
def exact (mantissa : Nat) (exponent : Int) : Decimal :=
  if 0 ≤ exponent then ⟨mantissa * Nat.pow 2 exponent.toNat, 0⟩
  else ⟨mantissa * Nat.pow 5 (-exponent).toNat, exponent⟩

/-- The shortest decimal of `mantissa * 2 ^ exponent`. -/
def decimal (tie : Tie) (mantissa : Nat) (exponent : Int) : Decimal :=
  if mantissa = 0 then ⟨0, 0⟩
  else
    ((List.range' 1 17).findSome? (candidate? tie mantissa exponent)).getD
      (exact mantissa exponent)

end Offside.Shortest
