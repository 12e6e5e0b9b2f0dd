/-! # Magnitudes of 64-bit floating-point numbers

The non-negative doubles form one increasing chain. A magnitude is its place in that chain: rank 0
is zero, rank 1 the least subnormal, and the last rank is infinity. Every finite magnitude is a
whole number of *units* of `2^-1074`, so exact values are naturals. `nearest` rounds any
non-negative fraction of units to the chain, ties to the even rank; overflow to infinity is the
same rule applied at the top of the chain.
-/

namespace ScriptCore

-- Powers of naturals are those of the core library in every context of imports.
attribute [local instance (2000)] instPowNat

/-- A non-negative double, given by its place in the chain of all of them. -/
structure Magnitude where
  rank : Nat
  rank_le : rank ≤ 2047 * 2 ^ (52 : Nat)
deriving DecidableEq

/-- The quotient rounded to the nearest natural, a half going to the even neighbour. -/
def roundHalfEven (numerator denominator : Nat) : Nat :=
  let below := numerator / denominator
  let twice := 2 * (numerator % denominator)
  if twice < denominator then below
  else if denominator < twice then below + 1
  else if below % 2 = 0 then below
  else below + 1

/-- The quotient rounded to the nearest natural, a half going up. -/
def roundHalfUp (numerator denominator : Nat) : Nat :=
  (2 * numerator + denominator) / (2 * denominator)

namespace Magnitude

/-- The rank of infinity, one past the largest finite magnitude. -/
def infinityRank : Nat := 2047 * 2 ^ (52 : Nat)

/-- The number of units in one. -/
def unitsPerOne : Nat := 2 ^ (1074 : Nat)

def zero : Magnitude := ⟨0, by decide⟩
def infinity : Magnitude := ⟨infinityRank, Nat.le_refl _⟩

def isInfinite (m : Magnitude) : Bool := m.rank == infinityRank
def isZero (m : Magnitude) : Bool := m.rank == 0

/-- Above the subnormals each block of `2^52` ranks doubles the spacing. -/
def scaleOfRank (rank : Nat) : Nat := rank / 2 ^ (52 : Nat) - 1

/-- The value of a rank in units; at the rank of infinity it is `2^1024`, the bound that overflows. -/
def unitsOfRank (rank : Nat) : Nat :=
  (rank - scaleOfRank rank * 2 ^ (52 : Nat)) * 2 ^ scaleOfRank rank

/-- The exact value of a finite magnitude, in units of `2^-1074`. -/
def units (m : Magnitude) : Nat := unitsOfRank m.rank

/-- The rank nearest to `numerator / denominator` units, were the chain to go on without end. -/
def nearestRank (numerator denominator : Nat) : Nat :=
  let scale := (numerator / denominator).log2 - 52
  scale * 2 ^ (52 : Nat) + roundHalfEven numerator (denominator * 2 ^ scale)

/-- The magnitude nearest to `numerator / denominator` units, ties to even. -/
def nearest (numerator denominator : Nat) : Magnitude :=
  ⟨min (nearestRank numerator denominator) infinityRank, Nat.min_le_right _ _⟩

/-- The next magnitude of the chain; infinity stays where it is. -/
def next (m : Magnitude) : Magnitude :=
  ⟨min (m.rank + 1) infinityRank, Nat.min_le_right _ _⟩

end Magnitude

end ScriptCore
