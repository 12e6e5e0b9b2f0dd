import ScriptCore.Number.Double
import ScriptCore.Number.LongDigits
import ScriptCore.Text.Blank

/-! # Numbers read from text

Between blanks at both ends a text is empty, a signed `Infinity`, an integer after one of the
prefixes `0x`, `0o`, `0b`, or a decimal numeral; anything else reads as not-a-number. The digits of
a prefixed integer are taken in one by one and every step rounds. Decimal numerals are left to a
parser of the library, which also knows names of infinity and of not-a-number; a filter of bytes
keeps those from it. The parser is a parameter: `Double.parse?` is the one of the documentation and
`Double.parseCapped?` the one that is called.
-/

namespace ScriptCore

-- Powers of naturals are those of the core library in every context of imports.
attribute [local instance (2000)] instPowNat

/-- The value of an ASCII digit or letter in a radix, if the radix has that digit. -/
def digitValue? (radix : Nat) (c : Char) : Option Nat :=
  let code := c.toNat
  let value :=
    if '0'.toNat ≤ code && code ≤ '9'.toNat then code - '0'.toNat
    else if 'a'.toNat ≤ code && code ≤ 'z'.toNat then code - 'a'.toNat + 10
    else if 'A'.toNat ≤ code && code ≤ 'Z'.toNat then code - 'A'.toNat + 10
    else radix
  if value < radix then some value else none

/-- The leading decimal digits of a text, and what follows them. -/
def takeDigits : List Char → List Nat × List Char
  | [] => ([], [])
  | c :: rest =>
    match digitValue? 10 c with
    | some digit => let (digits, rest) := takeDigits rest; (digit :: digits, rest)
    | none => ([], c :: rest)

/-- A leading sign, `true` for minus, and what follows it. -/
def takeSign : List Char → Bool × List Char
  | '-' :: rest => (true, rest)
  | '+' :: rest => (false, rest)
  | text => (false, text)

namespace Numeral

/-- Reads the exponent that ends a numeral: nothing, or `e`, an optional sign and digits. -/
def readExponent? : List Char → Option (Option Int)
  | [] => some none
  | c :: rest =>
    if c == 'e' || c == 'E' then
      let (negative, rest) := takeSign rest
      match takeDigits rest with
      | (digit :: digits, []) =>
        let size : Int := ofLongDigits 10 (digit :: digits)
        some (some (if negative then -size else size))
      | _ => none
    else none

/-- Reads a decimal numeral with at least one digit before or after its point. -/
def read? (text : List Char) : Option Numeral :=
  let (negative, rest) := takeSign text
  let (whole, rest) := takeDigits rest
  let (fraction, rest) := match rest with
    | '.' :: rest => takeDigits rest
    | rest => ([], rest)
  if whole.isEmpty && fraction.isEmpty then none
  else (readExponent? rest).map fun exponent => ⟨negative, whole, fraction, exponent⟩

/-- The power of ten that the digits of a numeral, read as an integer, are multiplied by. -/
def scale (numeral : Numeral) : Int := numeral.exponent.getD 0 - numeral.fraction.length

/-- The size of an exponent of which no further digit is taken in once it is `2^16` or more. -/
def cappedSize (size : Nat) : Nat :=
  if size < 10 * 2 ^ (16 : Nat) then size else cappedSize (size / 10)
termination_by size
decreasing_by omega

/-- A numeral with as much of its exponent as is taken in. -/
def capped (numeral : Numeral) : Numeral :=
  { numeral with
    exponent := numeral.exponent.map fun exponent =>
      if exponent < 0 then -cappedSize exponent.natAbs else cappedSize exponent.natAbs }

end Numeral

namespace Double

/-- The double nearest to the integer of the given digits times a power of ten. What is beyond the
range of doubles is recognised by the place of its first digit, before any power of ten is formed. -/
def ofDecimal (negative : Bool) (digits : List Nat) (exponent : Int) : Double :=
  let digits := digits.dropWhile (· == 0)
  let point := digits.length + exponent
  if digits.isEmpty then signed negative .zero
  else if 309 < point then signed negative .infinity
  else if point < -324 then signed negative .zero
  else ofRatio negative (ofLongDigits 10 digits * 10 ^ exponent.toNat) (10 ^ (-exponent).toNat)

/-- Reads the digits of an integer, rounding after each. -/
def readDigits (radix : Nat) (digits : List Char) : Double :=
  let base := ofNat radix
  let value := digits.foldl
    (fun value c => do
      let digit ← digitValue? radix c
      (← value) * base + ofNat digit)
    (some zero)
  if digits.isEmpty then nan else value.getD nan

/-! ## Parsers of the library -/

/-- A parser of numbers; `none` is its error. -/
abbrev Parser := List Char → Option Double

end Double

/-- The double nearest to the value of a decimal numeral. -/
def Numeral.toDouble (numeral : Numeral) : Double :=
  .ofDecimal numeral.negative (numeral.whole ++ numeral.fraction) numeral.scale

namespace Double

/-- The number of a name, in small letters or capitals. -/
def ofName? (name : List Char) : Option Double :=
  let small := name.map Char.toLower
  if small = "inf".toList ∨ small = "infinity".toList then some infinity
  else if small = "nan".toList then some nan
  else none

/-- Parses an optional sign before a name, or a decimal numeral. -/
def parseBy? (ofNumeral : Numeral → Double) : Parser := fun text =>
  let (negative, unsigned) := takeSign text
  match ofName? unsigned with
  | some n => some (if negative then -n else n)
  | none => (Numeral.read? text).map ofNumeral

/-- The parser of the documentation: the nearest double. -/
def parse? : Parser := parseBy? Numeral.toDouble

/-- The parser that is called: it takes in no further digits of a huge exponent. -/
def parseCapped? : Parser := parseBy? fun numeral => numeral.capped.toDouble

/-! ## Texts -/

/-- The prefixes of integers, and their radices. -/
def prefixes : List (String × Nat) :=
  [("0x", 16), ("0X", 16), ("0o", 8), ("0O", 8), ("0b", 2), ("0B", 2)]

/-- The digits after a prefix, and its radix. -/
def takePrefix? (text : List Char) : Option (List Char × Nat) :=
  prefixes.findSome? fun (mark, radix) =>
    (mark.toList.isPrefixOf? text).map fun digits => (digits, radix)

/-- Whether a byte is a decimal digit, a point, an `e` or a sign. -/
def isNumeralByte (byte : UInt8) : Bool :=
  let code := byte.toNat
  ('0'.toNat ≤ code && code ≤ '9'.toNat) || code == '.'.toNat || code == 'e'.toNat ||
    code == 'E'.toNat || code == '+'.toNat || code == '-'.toNat

/-- Whether each byte of a text may stand in a decimal numeral. -/
def hasNumeralBytes (text : List Char) : Bool :=
  (text.flatMap String.utf8EncodeChar).all isNumeralByte

/-- Reads a number from a text without blanks around it. -/
def readTrimmedBy (parse : Parser) (text : List Char) : Double :=
  if text.isEmpty then zero
  else if text = "Infinity".toList ∨ text = "+Infinity".toList then infinity
  else if text = "-Infinity".toList then negativeInfinity
  else
    match takePrefix? text with
    | some (digits, radix) => readDigits radix digits
    | none => if hasNumeralBytes text then (parse text).getD nan else nan

/-- The number that a text reads as, with a given parser. -/
def ofTextBy (parse : Parser) (text : String) : Double :=
  readTrimmedBy parse (trimBlanks text.toList)

/-- The number that a text reads as. -/
def ofText (text : String) : Double := ofTextBy parseCapped? text

end Double

end ScriptCore
