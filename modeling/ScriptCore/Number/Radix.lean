import ScriptCore.Number.Text

/-! # Numbers in a radix

Fraction digits are produced while they still tell the number from its neighbours: `margin` is half
the gap to the next double, and it grows with each digit as the rest of the fraction does. The
working values are doubles and every step rounds. Integer digits come from repeated division; those
below the precision of a double are written as zeros.
-/

namespace ScriptCore

namespace Double

def half : Double := ofRatio false 1 2

/-- Half the gap to the next double, and never below the least subnormal. -/
def margin : Double → Double
  | nan => nan
  | signed negative m =>
    let halfGap := half * (signed negative m.next - signed negative m)
    let least := signed false ⟨1, by decide⟩
    if halfGap.less least then least else halfGap

end Double

namespace Numeral

/-- Adds one to the last of the fraction digits, given last first. Digits that overflow are dropped;
`none` when the carry leaves the fraction. -/
def carry? (radix : Nat) : List Nat → Option (List Nat)
  | [] => none
  | digit :: earlier =>
    if digit + 1 < radix then some ((digit + 1) :: earlier) else carry? radix earlier

/-- The fraction digits, last first, and whether a carry reached the integer part. A double has
fewer than 1100 fraction digits in any radix. -/
def fractionDigits (radix : Nat) : Nat → Double → Double → List Nat → List Nat × Bool
  | 0, _, _, digits => (digits, false)
  | fuel + 1, fraction, margin, digits =>
    let base := Double.ofNat radix
    let shifted := fraction * base
    let margin := margin * base
    let digit := shifted.wholeNat
    let digits := digit :: digits
    let rest := shifted - Double.ofNat digit
    let roundsUp := Double.half.less rest || (rest.equals Double.half && digit % 2 == 1)
    if roundsUp && (1 : Double).less (rest + margin) then
      match carry? radix digits with
      | some digits => (digits, false)
      | none => ([], true)
    else if rest.less margin then (digits, false)
    else fractionDigits radix fuel rest margin digits

/-- Divides out the digits that are beyond the precision of a double, and counts them. -/
def dropInexact (base : Double) : Nat → Double → Nat → Double × Nat
  | 0, whole, count => (whole, count)
  | fuel + 1, whole, count =>
    if Double.exactIntegerLimit.atMost (whole / base) then
      dropInexact base fuel (whole / base) (count + 1)
    else (whole, count)

/-- The digits of an integral double, put before `later`. -/
def wholeDigits (base : Double) : Nat → Double → List Nat → List Nat
  | 0, _, later => later
  | fuel + 1, whole, later =>
    let digit := whole % base
    let rest := (whole - digit) / base
    let digits := digit.wholeNat :: later
    if (0 : Double).less rest then wholeDigits base fuel rest digits else digits

/-- The numeral of a finite double in `radix`. -/
def inRadix (radix : Nat) (n : Double) : Numeral :=
  let base := Double.ofNat radix
  let value := n.abs
  let whole := value.truncate
  let fraction := value - whole
  let margin := value.margin
  let (fractionDigits, carried) :=
    if margin.atMost fraction then fractionDigits radix 1100 fraction margin [] else ([], false)
  let whole := if carried then whole + 1 else whole
  let (exact, zeros) := dropInexact base 1100 whole 0
  ⟨n.less 0, wholeDigits base 1100 exact (List.replicate zeros 0), fractionDigits.reverse, none⟩

end Numeral

/-- The text of a number in a radix from 2 to 36. -/
def Double.textInRadix (n : Double) (radix : Nat) : String :=
  if radix = 10 || !n.isFinite then n.text
  else (Numeral.inRadix radix n).render radix true

end ScriptCore
