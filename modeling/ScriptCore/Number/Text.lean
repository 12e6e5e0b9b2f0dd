import ScriptCore.Number.Double
import ScriptCore.Number.Shortest

/-! # Number text

A layout decides how the digits of a shortest decimal are set: within a range of point positions
they are written out, with zeros where there are no digits, and outside it in exponent form.
`Double.text` is the language's own text of a number, which reads back as the same number.
-/

namespace ScriptCore

/-- How a shortest decimal is written. The point position is that of `Decimal.point`. -/
structure Layout where
  /-- Point positions from `leastPoint` to `greatestPoint` are written without an exponent. -/
  leastPoint : Int
  greatestPoint : Int
  /-- An integer without exponent gets the fraction `.0`. -/
  zeroFraction : Bool
  /-- A non-negative exponent gets a plus sign. -/
  plusSign : Bool
  tie : Tie

namespace Layout

/-- Sets digits whose point stands at `point`, without rounding. -/
def numeral (layout : Layout) (negative : Bool) (digits : List Nat) (point : Int) : Numeral :=
  if layout.leastPoint ≤ point ∧ point ≤ layout.greatestPoint then
    if digits.length ≤ point then
      ⟨negative, digits ++ List.replicate (point.toNat - digits.length) 0,
        if layout.zeroFraction then [0] else [], none⟩
    else if 0 < point then
      ⟨negative, digits.take point.toNat, digits.drop point.toNat, none⟩
    else
      ⟨negative, [0], List.replicate (-point).toNat 0 ++ digits, none⟩
  else
    ⟨negative, digits.take 1, digits.drop 1, some (point - 1)⟩

/-- The text of a signed finite non-zero magnitude. -/
def write (layout : Layout) (negative : Bool) (m : Magnitude) : String :=
  let decimal := m.shortest layout.tie
  (layout.numeral negative decimal.digits decimal.point).render 10 layout.plusSign

end Layout

/-- Numbers from `10^-6` to below `10^21` are written without an exponent. -/
def Double.layout : Layout := ⟨-5, 21, false, true, .up⟩

/-- The text of a number. Both zeros are `0`. -/
def Double.text : Double → String
  | .nan => "NaN"
  | .signed negative m =>
    if m.isZero then "0"
    else if m.isInfinite then if negative then "-Infinity" else "Infinity"
    else Double.layout.write negative m

end ScriptCore
