/-! # UTF-16 units

Strings are measured and ordered by the units of their UTF-16 encoding. A character beyond the
basic plane has two units, a high and a low surrogate, so it sorts below the last code points of
that plane.
-/

namespace ScriptCore

/-- The UTF-16 units of a character. -/
def unitsOfChar (c : Char) : List Nat :=
  if c.toNat < 0x10000 then [c.toNat]
  else
    let offset := c.toNat - 0x10000
    [0xD800 + offset / 0x400, 0xDC00 + offset % 0x400]

/-- The UTF-16 units of a text. -/
def units16 (text : String) : List Nat := text.toList.flatMap unitsOfChar

/-- Whether the first list is a proper beginning of the second or smaller where they first differ. -/
def unitsBefore : List Nat → List Nat → Bool
  | _, [] => false
  | [], _ :: _ => true
  | a :: as, b :: bs => a < b || (a == b && unitsBefore as bs)

/-- The order of strings. -/
def textBefore (a b : String) : Bool := unitsBefore (units16 a) (units16 b)

end ScriptCore
