import ScriptCore.Json.Basic
import ScriptCore.Number.Reading

/-! # JSON numbers read

A number that is written as an integer and fits into 64 bits is one. Any other is a double, and a
number beyond the range of doubles is refused. Which double it is depends on the reader. The one of
the documentation takes the nearest. The one in use takes a 64-bit significand and a power of ten:
digits that no longer fit are dropped, those before the point counting as zeros, the significand is
rounded and then scaled by a rounded power of ten, so numbers of many digits or of large exponents
may end next to the nearest double.
-/

namespace ScriptCore

-- Powers of naturals are those of the core library in every context of imports.
attribute [local instance (2000)] instPowNat

namespace Json

/-- Takes digits into a significand while it stays below `2^64`; the rest is left. -/
def packDigits : Nat → List Nat → Nat × List Nat
  | significand, [] => (significand, [])
  | significand, digit :: rest =>
    if significand * 10 + digit < 2 ^ (64 : Nat) then packDigits (significand * 10 + digit) rest
    else (significand, digit :: rest)

/-- The double `x * 10 ^ exponent`, rounded at each step; `none` if it overflows. The greatest
power of ten in one step is `10^308`. -/
def scaleByTen? (x : Double) (exponent : Int) : Option Double :=
  if exponent < -308 then
    if x.isZero then some x else scaleByTen? (x / .ofNat (10 ^ (308 : Nat))) (exponent + 308)
  else if exponent < 0 then some (x / .ofNat (10 ^ (-exponent).toNat))
  else if exponent ≤ 308 then
    let scaled := x * .ofNat (10 ^ exponent.toNat)
    if scaled.isFinite then some scaled else none
  else if x.isZero then some x
  else none
termination_by (-exponent).toNat
decreasing_by omega

/-- The double nearest to a numeral, unless it is beyond the range. -/
def nearestDouble? (numeral : Numeral) : Option Double :=
  if numeral.toDouble.isFinite then some numeral.toDouble else none

/-- The double of a numeral by its significand and its power of ten. -/
def scaledDouble? (numeral : Numeral) : Option Double := do
  let (leading, dropped) := packDigits 0 numeral.whole
  let (significand, unread) := packDigits leading numeral.fraction
  let taken : Int := numeral.fraction.length - unread.length
  let x ← scaleByTen? (.ofNat significand) (dropped.length - taken + numeral.exponent.getD 0)
  return if numeral.negative then -x else x

/-- The integer of a numeral that is written as one, if it fits into 64 bits. There is no integer
minus zero. -/
def integerOf? (numeral : Numeral) : Option Int :=
  match numeral.fraction, numeral.exponent, packDigits 0 numeral.whole with
  | [], none, (size, []) =>
    if !numeral.negative then some size
    else if 0 < size && size ≤ 2 ^ (63 : Nat) then some (-size)
    else none
  | _, _, _ => none

/-- The number of a numeral, with a given way to the double of one that is no integer. -/
def numberOf? (double? : Numeral → Option Double) (numeral : Numeral) : Option Json :=
  match integerOf? numeral with
  | some n => some (.integer n)
  | none => (double? numeral).map .float

/-- A leading minus sign, and what follows it. -/
def takeMinus : List Char → Bool × List Char
  | '-' :: rest => (true, rest)
  | rest => (false, rest)

/-- A point with at least one digit after it, or nothing. -/
def takeFraction? : List Char → Option (List Nat × List Char)
  | '.' :: rest =>
    match takeDigits rest with
    | ([], _) => none
    | (fraction, rest) => some (fraction, rest)
  | rest => some ([], rest)

/-- An exponent with at least one digit, or nothing. -/
def takeExponent? : List Char → Option (Option Int × List Char)
  | 'e' :: rest | 'E' :: rest =>
    let (negative, rest) := takeSign rest
    match takeDigits rest with
    | ([], _) => none
    | (digits, rest) =>
      let size : Int := ofLongDigits 10 digits
      some (some (if negative then -size else size), rest)
  | rest => some (none, rest)

/-- Splits a text after the number that it begins with. There is at least one digit before the
point, without leading zeros. -/
def takeNumeral? (text : List Char) : Option (Numeral × List Char) :=
  let (negative, rest) := takeMinus text
  match takeDigits rest with
  | ([], _) => none
  | (0 :: _ :: _, _) => none
  | (whole, rest) => do
    let (fraction, rest) ← takeFraction? rest
    let (exponent, rest) ← takeExponent? rest
    return (⟨negative, whole, fraction, exponent⟩, rest)

/-- Reads the number that a text begins with. -/
def takeNumber? (double? : Numeral → Option Double) (text : List Char) :
    Option (Json × List Char) := do
  let (numeral, rest) ← takeNumeral? text
  return (← numberOf? double? numeral, rest)

end Json

end ScriptCore
