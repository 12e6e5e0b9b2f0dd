/-! # Blank characters

The characters that may stand around a number: those with the property White_Space, and the
zero-width no-break space.
-/

namespace ScriptCore

/-- The code points with the property White_Space. -/
def hasWhiteSpace (code : Nat) : Bool :=
  (0x9 ≤ code && code ≤ 0xD) || code == 0x20 || code == 0x85 || code == 0xA0 || code == 0x1680 ||
    (0x2000 ≤ code && code ≤ 0x200A) || code == 0x2028 || code == 0x2029 || code == 0x202F ||
    code == 0x205F || code == 0x3000

def isBlank (c : Char) : Bool := hasWhiteSpace c.toNat || c.toNat == 0xFEFF

/-- The text without the blanks at both ends. -/
def trimBlanks (text : List Char) : List Char :=
  ((text.dropWhile isBlank).reverse.dropWhile isBlank).reverse

end ScriptCore
