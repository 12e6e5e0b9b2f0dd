import ScriptCore.Number.Reading
import ScriptCore.Number.Text

/-! # Number text by way of scientific notation

The text of a number can also be had from the scientific notation of its shortest decimal, by moving
the characters: the text is split at its `e`, the exponent is read, and the point is set anew among
the digits. Each of these steps has a case in which it gives nothing.
-/

namespace ScriptCore

/-- The shortest form with one digit before the point and a plain exponent. -/
def Decimal.scientific (d : Decimal) : Numeral :=
  ⟨false, d.digits.take 1, d.digits.drop 1, some (d.point - 1)⟩

namespace Scientific

/-- What stands before and after the first of a character, if the text has one. -/
def splitOnce? (separator : Char) : List Char → Option (List Char × List Char)
  | [] => none
  | c :: rest =>
    if c = separator then some ([], rest)
    else (splitOnce? separator rest).map fun parts => (c :: parts.1, parts.2)

/-- Reads an integer of 32 bits: an optional sign and digits. -/
def readInt32? (text : List Char) : Option Int :=
  let (negative, rest) := takeSign text
  match takeDigits rest with
  | (digit :: digits, []) =>
    let size : Int := ofDigits 10 (digit :: digits)
    let value := if negative then -size else size
    if Int32.minValue.toInt ≤ value ∧ value ≤ Int32.maxValue.toInt then some value else none
  | _ => none

/-- Splits a text after a number of characters, if it has as many. -/
def splitInside? (count : Nat) (text : List Char) : Option (List Char × List Char) :=
  if count ≤ text.length then some (text.take count, text.drop count) else none

/-- Sets digits of which the first is worth the given power of ten. -/
def set? (digits : List Char) (exponent : Int) : Option (List Char) :=
  let point := exponent + 1
  if digits.length ≤ point ∧ point ≤ 21 then
    some (digits ++ List.replicate (point - digits.length).toNat '0')
  else if 0 < point ∧ point ≤ 21 then
    (splitInside? point.toNat digits).map fun parts => parts.1 ++ '.' :: parts.2
  else if -6 < point ∧ point ≤ 0 then
    some ('0' :: '.' :: (List.replicate (-point).toNat '0' ++ digits))
  else
    (splitInside? 1 digits).map fun parts =>
      parts.1 ++ (if parts.2.isEmpty then [] else '.' :: parts.2) ++
        'e' :: (if point - 1 < 0 then '-' else '+') ::
          (digitsOf 10 (point - 1).natAbs).map (digitChar 10)

/-- The characters of a number from those of its size in scientific notation. -/
def rewrite? (negative : Bool) (text : List Char) : Option (List Char) := do
  let (mantissa, exponent) ← splitOnce? 'e' text
  let exponent ← readInt32? exponent
  let body ← set? (mantissa.filter (· ≠ '.')) exponent
  return if negative then '-' :: body else body

end Scientific

end ScriptCore
