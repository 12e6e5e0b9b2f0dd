import ScriptCore.Number.Magnitude

/-! # Doubles and their arithmetic

A double is a signed magnitude or the one not-a-number. Every operation takes the exact result as
a fraction of units and rounds once, so its meaning is that of exact arithmetic followed by
`Magnitude.nearest`. `Double.equals` and `Double.less` compare as numbers do: the two zeros are
equal and not-a-number is equal to nothing. Structural equality tells them apart.
-/

namespace ScriptCore

-- Powers of naturals are those of the core library in every context of imports.
attribute [local instance (2000)] instPowNat

/-- A double. There is one not-a-number: no operation of scripts tells two apart, so the sign and
the payload of its bit patterns are left out, and it cannot be said that two have the same bits. -/
inductive Double
  | nan
  | signed (negative : Bool) (magnitude : Magnitude)
deriving DecidableEq

namespace Double

def zero : Double := signed false .zero
def negativeZero : Double := signed true .zero
def infinity : Double := signed false .infinity
def negativeInfinity : Double := signed true .infinity

instance : Inhabited Double := ⟨nan⟩

/-- The double nearest to a fraction of units, with the given sign. -/
def nearest (negative : Bool) (numerator denominator : Nat) : Double :=
  signed negative (.nearest numerator denominator)

/-- The double nearest to the fraction `numerator / denominator`. -/
def ofRatio (negative : Bool) (numerator denominator : Nat) : Double :=
  nearest negative (numerator * Magnitude.unitsPerOne) denominator

/-- The double nearest to a natural. -/
def ofNat (n : Nat) : Double := ofRatio false n 1

/-- The double nearest to an integer; zero is positive. -/
def ofInt (n : Int) : Double := ofRatio (n < 0) n.natAbs 1

instance (n : Nat) : OfNat Double n := ⟨ofNat n⟩

/-! ## Bit patterns -/

/-- The double of a 64-bit pattern: the top bit is the sign and the rest the rank. -/
def ofBits (bits : Nat) : Double :=
  let rank := bits % 2 ^ (63 : Nat)
  if h : rank ≤ 2047 * 2 ^ (52 : Nat) then signed (bits / 2 ^ (63 : Nat) % 2 == 1) ⟨rank, h⟩
  else nan

/-- The 64-bit pattern of a double; not-a-number has the quiet pattern without payload. -/
def toBits : Double → Nat
  | nan => 2047 * 2 ^ (52 : Nat) + 2 ^ (51 : Nat)
  | signed negative m => (if negative then 2 ^ (63 : Nat) else 0) + m.rank

/-! ## Classification and order -/

def isNaN : Double → Bool
  | nan => true
  | signed _ _ => false

def isFinite : Double → Bool
  | nan => false
  | signed _ m => !m.isInfinite

def isZero : Double → Bool
  | nan => false
  | signed _ m => m.isZero

/-- Places the doubles other than not-a-number on a line, both zeros at the same place. -/
def place (negative : Bool) (m : Magnitude) : Int :=
  if negative then -m.rank else m.rank

/-- Equality of numbers. -/
def equals : Double → Double → Bool
  | signed s a, signed t b => place s a == place t b
  | _, _ => false

/-- Order of numbers. -/
def less : Double → Double → Bool
  | signed s a, signed t b => place s a < place t b
  | _, _ => false

/-- At most, for numbers. -/
def atMost : Double → Double → Bool
  | signed s a, signed t b => place s a ≤ place t b
  | _, _ => false

/-! ## Arithmetic -/

def negate : Double → Double
  | nan => nan
  | signed s m => signed (!s) m

def abs : Double → Double
  | nan => nan
  | signed _ m => signed false m

/-- The exact value of a finite signed magnitude, in units. -/
def signedUnits (negative : Bool) (m : Magnitude) : Int :=
  if negative then -m.units else m.units

/-- An exact sum of zero is negative only when both operands are negative zero. -/
def add : Double → Double → Double
  | signed s a, signed t b =>
    if a.isInfinite then
      if b.isInfinite && s != t then nan else signed s a
    else if b.isInfinite then signed t b
    else
      let sum := signedUnits s a + signedUnits t b
      if sum = 0 then signed (s && t) .zero else nearest (sum < 0) sum.natAbs 1
  | _, _ => nan

def sub (x y : Double) : Double := add x (negate y)

def mul : Double → Double → Double
  | signed s a, signed t b =>
    if a.isInfinite || b.isInfinite then
      if a.isZero || b.isZero then nan else signed (s != t) .infinity
    else nearest (s != t) (a.units * b.units) Magnitude.unitsPerOne
  | _, _ => nan

def div : Double → Double → Double
  | signed s a, signed t b =>
    if a.isInfinite then
      if b.isInfinite then nan else signed (s != t) .infinity
    else if b.isInfinite then signed (s != t) .zero
    else if b.isZero then
      if a.isZero then nan else signed (s != t) .infinity
    else nearest (s != t) (a.units * Magnitude.unitsPerOne) b.units
  | _, _ => nan

/-- The exact remainder of the truncated quotient; it has the sign of the dividend. -/
def rem : Double → Double → Double
  | signed s a, signed _ b =>
    if a.isInfinite || b.isZero then nan
    else if b.isInfinite then signed s a
    else nearest s (a.units % b.units) 1
  | _, _ => nan

/-- The integer part, toward zero. -/
def truncate : Double → Double
  | signed s m =>
    if m.isInfinite then signed s m
    else nearest s (m.units / Magnitude.unitsPerOne * Magnitude.unitsPerOne) 1
  | nan => nan

/-- The integer part of the magnitude as a natural; 0 where there is none. -/
def wholeNat : Double → Nat
  | signed _ m => if m.isInfinite then 0 else m.units / Magnitude.unitsPerOne
  | nan => 0

/-- Whether a finite double has no fractional part. -/
def isIntegral : Double → Bool
  | signed _ m => !m.isInfinite && m.units % Magnitude.unitsPerOne == 0
  | nan => false

instance : Add Double := ⟨add⟩
instance : Sub Double := ⟨sub⟩
instance : Mul Double := ⟨mul⟩
instance : Div Double := ⟨div⟩
instance : Mod Double := ⟨rem⟩
instance : Neg Double := ⟨negate⟩

/-- `2^53`, the end of the range in which every integer is a double. -/
def exactIntegerLimit : Double := ofNat (2 ^ (53 : Nat))

end Double

end ScriptCore
