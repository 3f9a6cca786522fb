import Offside.Decimal.Shortest

/-!
# Offside.Decimal.Style

Texts of numbers. A `NumberStyle` is one set of decisions on how numbers are
written; the two that the program uses are `NumberStyle.code`, for numbers in
generated code, and `NumberStyle.data`, for numbers in a dumped syntax tree.
-/

namespace Offside

/-- How finite numbers are written. -/
structure NumberStyle where
  /-- Where a number goes that lies halfway between two shortest decimals. -/
  tie : Shortest.Tie
  /-- Numbers `d.ddd * 10 ^ e` with these `e` are written without exponent. -/
  isPositional : Int → Bool
  /-- Whole numbers end in `.0`. -/
  alwaysFraction : Bool

namespace NumberStyle

/-- Numbers in generated code have no exponent, and whole ones no point. -/
def code : NumberStyle := ⟨.up, fun _ => true, false⟩

/-- Numbers in dumped data have an exponent below 10^-5 and from 10^16 on, and
otherwise a fraction. -/
def data : NumberStyle := ⟨.even, fun e => -5 ≤ e ∧ e < 16, true⟩

end NumberStyle

namespace Decimal

/-- The digits of a decimal. -/
def digitText (d : Decimal) : List Char := Nat.toDigits 10 d.digits

/-- The decimal exponent of the first digit. -/
def leading (d : Decimal) : Int := d.top - 1

/-- A decimal without exponent. -/
def positional (alwaysFraction : Bool) (d : Decimal) : List Char :=
  let digits := d.digitText
  if 0 ≤ d.exponent then
    digits ++ List.replicate d.exponent.toNat '0' ++ (if alwaysFraction then ['.', '0'] else [])
  else
    let places := (-d.exponent).toNat
    let padded := List.replicate (places + 1 - digits.length) '0' ++ digits
    let cut := padded.length - places
    padded.take cut ++ '.' :: padded.drop cut

/-- A decimal with one digit before the point and a signed exponent. -/
def scientific (d : Decimal) : List Char :=
  let fraction := d.digitText.drop 1
  let e := d.leading
  d.digitText.take 1 ++ (if fraction = [] then [] else '.' :: fraction) ++
    'e' :: (if e < 0 then '-' else '+') :: Nat.toDigits 10 e.natAbs

/-- The text of a decimal in a style. -/
def render (style : NumberStyle) (d : Decimal) : List Char :=
  if style.isPositional d.leading then d.positional style.alwaysFraction else d.scientific

end Decimal

namespace Binary64

/-- The text of a finite number in a style. -/
def renderFinite (style : NumberStyle) (negative : Bool) (mantissa : Nat) (exponent : Int) :
    String :=
  String.ofList
    ((if negative then ['-'] else []) ++
      (Shortest.decimal style.tie mantissa exponent).render style)

/-- A number in generated code. -/
def toCode : Binary64 → String
  | .finite negative mantissa exponent => renderFinite .code negative mantissa exponent
  | .infinite negative => if negative then "-inf" else "inf"
  | .nan => "NaN"

/-- A number in dumped data. Data has no infinities and no `nan`. -/
def toData? : Binary64 → Option String
  | .finite negative mantissa exponent => some (renderFinite .data negative mantissa exponent)
  | .infinite _ | .nan => none

end Binary64

end Offside
