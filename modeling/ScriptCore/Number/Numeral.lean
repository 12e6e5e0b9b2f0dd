/-! # Positional numerals

A numeral is a sign, digits before and after the point, and an optional power of the base. It is
what every number format of the language writes; `Numeral.render` is its only spelling. Digits are
naturals, most significant first, and stand for `0-9a-z` when written.
-/

namespace ScriptCore

/-- Digits of `n` in `base`, least significant first, none for zero. -/
def digitsUpward (base : Nat) : Nat → Nat → List Nat
  | 0, _ => []
  | fuel + 1, n => if n = 0 then [] else n % base :: digitsUpward base fuel (n / base)

/-- Digits of `n` in `base`, most significant first; zero is the one digit 0. A natural has at
most one digit more than its binary logarithm. -/
def digitsOf (base n : Nat) : List Nat :=
  if n = 0 then [0] else (digitsUpward base (n.log2 + 1) n).reverse

/-- The natural that a list of digits denotes. -/
def ofDigits (base : Nat) (digits : List Nat) : Nat :=
  digits.foldl (fun value digit => value * base + digit) 0

/-- The character of a digit; a digit that the base does not have is written `0`. -/
def digitChar (base digit : Nat) : Char :=
  if base ≤ digit then '0'
  else if digit < 10 then Char.ofNat ('0'.toNat + digit)
  else Char.ofNat ('a'.toNat + (digit - 10))

structure Numeral where
  negative : Bool
  whole : List Nat
  fraction : List Nat
  exponent : Option Int
deriving DecidableEq

namespace Numeral

/-- The decimal text of an exponent; a plus sign is optional and a minus sign is not. -/
def renderExponent (plus : Bool) (exponent : Int) : List Char :=
  (if exponent < 0 then ['-'] else if plus then ['+'] else []) ++
    (digitsOf 10 exponent.natAbs).map (digitChar 10)

/-- The characters of a numeral; `plus` asks for a sign before a non-negative exponent. -/
def chars (numeral : Numeral) (base : Nat) (plus : Bool) : List Char :=
  (if numeral.negative then ['-'] else []) ++
    numeral.whole.map (digitChar base) ++
    (if numeral.fraction.isEmpty then [] else '.' :: numeral.fraction.map (digitChar base)) ++
    (match numeral.exponent with
      | none => []
      | some exponent => 'e' :: renderExponent plus exponent)

def render (numeral : Numeral) (base : Nat) (plus : Bool) : String :=
  String.ofList (numeral.chars base plus)

end Numeral

end ScriptCore
