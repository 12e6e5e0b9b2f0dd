import ScriptCore.Number.Magnitude
import ScriptCore.Number.Numeral

/-! # Shortest decimals

The decimals that read back as a given magnitude fill the interval between the midpoints to its
two neighbours, ends included when its rank is even. `Magnitude.shortest` looks for the coarsest
power-of-ten grid with a point in that interval, among the two grid points next to the value. All
comparisons are between naturals, on the scale of half units.
-/

namespace ScriptCore

-- Powers of naturals are those of the core library in every context of imports.
attribute [local instance (2000)] instPowNat

/-- The number `coefficient * 10 ^ exponent`. -/
structure Decimal where
  coefficient : Nat
  exponent : Int
deriving DecidableEq, Inhabited

/-- Which of two equally near neighbours a tie takes. -/
inductive Tie
  | up
  | even
deriving DecidableEq

/-- The greatest `p` with `10 ^ p ≤ n`, for a natural from 1 to `2 ^ 60000`. The guess from the
binary logarithm is never too great and at most one too small. -/
def log10 (n : Nat) : Nat :=
  let guess := n.log2 * 30102 / 100000
  if 10 ^ (guess + 1) ≤ n then guess + 1 else guess

namespace Decimal

/-- The decimal digits of the coefficient. -/
def digits (d : Decimal) : List Nat := digitsOf 10 d.coefficient

/-- Where the point stands, counted from the first digit: `0.d1d2...` times this power of ten. -/
def point (d : Decimal) : Int := d.digits.length + d.exponent

/-- Moves trailing zeros of the coefficient to the exponent. -/
def stripZeros : Nat → Decimal → Decimal
  | 0, d => d
  | fuel + 1, d =>
    if d.coefficient % 10 = 0 ∧ d.coefficient ≠ 0 then
      stripZeros fuel ⟨d.coefficient / 10, d.exponent + 1⟩
    else d

end Decimal

namespace Magnitude

/-- Twice the number of units in one. -/
def halfUnitsPerOne : Nat := 2 * unitsPerOne

/-- How far below the value numbers still round to it, in half units. -/
def roomBelow (m : Magnitude) : Nat := m.units - unitsOfRank (m.rank - 1)

/-- How far above the value numbers still round to it, in half units. -/
def roomAbove (m : Magnitude) : Nat := unitsOfRank (m.rank + 1) - m.units

/-- Whether a distance lies within the room on its side. The ends belong to an even rank. -/
def reaches (m : Magnitude) (distance room : Nat) : Bool :=
  if m.rank % 2 = 0 then distance ≤ room else distance < room

/-- The power of ten of the first digit: `10 ^ p ≤ value < 10 ^ (p + 1)` for a non-zero value. -/
def leadingPower (m : Magnitude) : Int := log10 (m.units * 10 ^ (324 : Nat) / unitsPerOne) - 324

/-- The better of the two points of the grid `10 ^ exponent` next to the value, if one reads back.
On the scale of the grid the value lies `rest` above the lower point and `step - rest` below the
upper one. -/
def onGrid? (m : Magnitude) (tie : Tie) (exponent : Int) : Option Decimal :=
  let up := 10 ^ (-exponent).toNat
  let step := halfUnitsPerOne * 10 ^ exponent.toNat
  let value := 2 * m.units * up
  let below := value / step
  let rest := value % step
  let aboveIsNearer :=
    if 2 * rest = step then tie == .up || below % 2 == 1 else step < 2 * rest
  let belowReadsBack := m.reaches rest (m.roomBelow * up)
  let aboveReadsBack := m.reaches (step - rest) (m.roomAbove * up)
  if aboveReadsBack && (aboveIsNearer || !belowReadsBack) then some ⟨below + 1, exponent⟩
  else if belowReadsBack then some ⟨below, exponent⟩
  else none

/-- The shortest decimal that reads back as a finite non-zero magnitude, the nearest of those.
Seventeen digits always suffice. -/
def shortest (m : Magnitude) (tie : Tie) : Decimal :=
  let leading := m.leadingPower
  let found := (List.range 17).findSome? fun (more : Nat) => m.onGrid? tie (leading - more)
  (found.getD ⟨m.units / unitsPerOne, 0⟩).stripZeros 17

end Magnitude

end ScriptCore
