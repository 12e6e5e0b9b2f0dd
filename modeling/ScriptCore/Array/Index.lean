import ScriptCore.Number.Reading

/-! # Array indices

An index is written as a decimal numeral without leading zeros. Numerals that overflow a word of 64
bits or are above the greatest index are indices that no array has.
-/

namespace ScriptCore

-- Powers of naturals are those of the core library in every context of imports.
attribute [local instance (2000)] instPowNat

/-- The greatest index that an array may have. -/
def greatestIndex : Nat := 2 ^ (32 : Nat) - 2

def isDecimalDigit (c : Char) : Bool := '0'.toNat ≤ c.toNat && c.toNat ≤ '9'.toNat

/-- Whether a text is a decimal numeral without leading zeros. -/
def isIndexNumeral : List Char → Bool
  | [] => false
  | ['0'] => true
  | first :: rest => first != '0' && isDecimalDigit first && rest.all isDecimalDigit

/-- Takes one more decimal digit into a word of 64 bits, unless it overflows. -/
def appendDigit? (word : Nat) (c : Char) : Option Nat := do
  let digit ← digitValue? 10 c
  if word * 10 + digit < 2 ^ (64 : Nat) then some (word * 10 + digit) else none

/-- Reads a word of 64 bits from decimal digits, at least one, maybe after a plus sign and with zeros
in front. -/
def readWord? (text : List Char) : Option Nat :=
  let digits := match text with
    | '+' :: digits => digits
    | digits => digits
  if digits.isEmpty then none else digits.foldlM appendDigit? 0

/-- The index that a text writes, which only index numerals do. -/
def readIndex? (text : List Char) : Option Nat :=
  if isIndexNumeral text then (readWord? text).filter (· ≤ greatestIndex) else none

end ScriptCore
