import ScriptCore.Error
import ScriptCore.Number.Scientific
import ScriptCore.Number.Text

/-! # Numbers with a fixed count of places

`Double.toFixed` writes a number with a given count of decimal places, a half going away from zero.
The count is itself a number and is checked first. The formatter rounds a half to the even
neighbour, so an exact half is found among the digits of the exact value and rounded there, digit by
digit; any other number is left to the formatter.
-/

namespace ScriptCore

-- Powers of naturals are those of the core library in every context of imports.
attribute [local instance (2000)] instPowNat

/-- The numeral of a natural with its last `places` digits behind the point. -/
def Numeral.ofScaled (negative : Bool) (scaled places : Nat) : Numeral :=
  let fraction := if places = 0 then [] else digitsOf 10 (scaled % 10 ^ places)
  ⟨negative, digitsOf 10 (scaled / 10 ^ places),
    List.replicate (places - fraction.length) 0 ++ fraction, none⟩

namespace Fixed

/-- Every finite double has at most this many digits behind the point. -/
def exactPlaces : Nat := 1074

/-- Adds one to digits, the least significant first. A carry out of the last one is a new digit. -/
def incrementUpward : List Char → List Char
  | [] => ['1']
  | c :: rest => if c = '9' then '0' :: incrementUpward rest else Char.ofNat (c.toNat + 1) :: rest

/-- Adds one to the natural that digits write. -/
def increment (digits : List Char) : List Char := (incrementUpward digits.reverse).reverse

/-- Whether the digits behind a point write exactly one half. -/
def isHalf : List Char → Bool
  | [] => false
  | c :: rest => c == '5' && rest.all (· == '0')

/-- Sets a point before the last `places` digits, after zeros if there are not enough. -/
def insertPoint (digits : List Char) (places : Nat) : List Char :=
  if places = 0 then digits
  else
    let padded := digits.leftpad (places + 1) '0'
    padded.take (padded.length - places) ++ '.' :: padded.drop (padded.length - places)

end Fixed

namespace Double

open Fixed Scientific

/-- The characters that the formatter gives a number for a count of places: those of its exact
value, correctly rounded, a half to the even neighbour. -/
def formatted (places : Nat) : Double → List Char
  | nan => "NaN".toList
  | signed negative m =>
    if m.isInfinite then (if negative then "-inf" else "inf").toList
    else
      (Numeral.ofScaled negative (roundHalfEven (m.units * 10 ^ places) Magnitude.unitsPerOne)
        places).chars 10 true

/-- The characters of a number whose exact value lies halfway between two candidates: those of the
greater one. -/
def roundExactTie? (n : Double) (places : Nat) : Option (List Char) := do
  let (whole, fraction) ← splitOnce? '.' (n.formatted exactPlaces)
  let (kept, rest) ← splitInside? places fraction
  if isHalf rest then some (insertPoint (increment (whole ++ kept)) places) else none

/-- The integer part of an argument that must lie in `least..greatest`; not-a-number counts as 0. -/
def integerWithin? (least greatest : Nat) (argument : Double) : Option Nat :=
  let whole := if argument.isNaN then 0 else argument.truncate
  if (ofNat least).atMost whole && whole.atMost (ofNat greatest) then some whole.wholeNat else none

/-- A number and its opposite are not both below zero. -/
theorem less_zero_neg {n : Double} (below : n.less zero = true) : (-n).less zero = false := by
  cases n with
  | nan => cases below
  | signed negative m =>
    change decide (place (!negative) m < place false .zero) = false
    change decide (place negative m < place false .zero) = true at below
    rw [decide_eq_true_iff] at below
    rw [decide_eq_false_iff_not]
    cases negative <;> simp only [place, Magnitude.zero, Bool.not_true, Bool.not_false, if_true,
      if_false, Bool.false_eq_true] at * <;> omega

/-- The text of a number with a fixed count of places. From `10^21` on, and for what is not finite,
it is the number's own text. A negative number has the text of its opposite after a minus sign; the
negative zero has none. -/
def toFixed (n places : Double) (range : Option SourceRange) : Except ScriptError String :=
  match integerWithin? 0 100 places with
  | none => .error (.mk .fixedPlacesOutOfRange range)
  | some places =>
    if !n.isFinite || (ofNat (10 ^ (21 : Nat))).atMost n.abs then .ok n.text
    else if n.less zero then return "-" ++ (← toFixed (-n) (ofNat places) range)
    else
      match n.abs.roundExactTie? places with
      | some rounded => .ok (String.ofList rounded)
      | none => .ok (String.ofList (n.abs.formatted places))
termination_by if n.less zero then 1 else 0
decreasing_by
  next below =>
    rw [less_zero_neg below, below]
    decide

end Double

end ScriptCore
