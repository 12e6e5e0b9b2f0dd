import ScriptCore.Proofs.Number.Shortest

/-! # The length of shortest decimals

The first digit of a magnitude stands at its leading power, and the search goes sixteen digits
further at most. So the steps of a grid that is that fine are few, and so is the coefficient of a
point on it.
-/

namespace ScriptCore

/-- A fraction above the decimal logarithm of two turns powers of two into greater powers of ten. -/
theorem two_pow_le_ten_pow {above below bits digits : Nat} (positive : 0 < below)
    (bound : 2 ^ below ≤ 10 ^ above) (enough : bits * above ≤ digits * below) :
    2 ^ bits ≤ 10 ^ digits := by
  rw [← Nat.pow_le_pow_iff_left positive.ne', ← Nat.pow_mul, ← Nat.pow_mul]
  calc 2 ^ (bits * below) = (2 ^ below) ^ bits := by rw [← Nat.pow_mul, Nat.mul_comm]
    _ ≤ (10 ^ above) ^ bits := Nat.pow_le_pow_left bound bits
    _ = 10 ^ (bits * above) := by rw [← Nat.pow_mul, Nat.mul_comm]
    _ ≤ 10 ^ (digits * below) := Nat.pow_le_pow_right (by decide) enough

theorem lt_ten_pow_log10 {n bits : Nat} (small : n < 2 ^ bits) (few : bits ≤ 2200) :
    n < 10 ^ (log10 n + 1) := by
  unfold log10
  dsimp only
  split
  · next raised =>
    have positive : n ≠ 0 := (Nat.lt_of_lt_of_le (Nat.pow_pos (by decide)) raised).ne'
    have fewer : n.log2 < bits := (Nat.log2_lt positive).mpr small
    have less : n < 2 ^ (n.log2 + 1) := Nat.lt_log2_self
    exact less.trans_le (two_pow_le_ten_pow (show 0 < 93 by decide)
      (show 2 ^ 93 ≤ 10 ^ 28 by decide) (by omega))
  · next exact => exact Nat.lt_of_not_le exact

namespace Decimal

theorem stripZeros_coefficient_le (fuel : Nat) (d : Decimal) :
    (d.stripZeros fuel).coefficient ≤ d.coefficient := by
  induction fuel generalizing d with
  | zero => exact Nat.le_refl _
  | succ fuel ih =>
    rw [stripZeros]
    split
    · exact (ih _).trans (Nat.div_le_self ..)
    · exact Nat.le_refl _

end Decimal

namespace Magnitude

variable {m : Magnitude}

section

-- The shift is a power as the logarithm of a magnitude has it.
attribute [local instance (2000)] instPowNat

theorem lt_ten_zpow_log10_mul (shift : Nat) {n divisor range : Nat} (positive : 0 < divisor)
    (small : n < range) (enough : range * 10 ^ shift ≤ 2 ^ 2200 * divisor) :
    (n : ℚ) < 10 ^ ((log10 (n * 10 ^ shift / divisor) : Int) - shift + 1) * divisor := by
  have scaled : n * 10 ^ shift < 2 ^ 2200 * divisor :=
    (Nat.mul_lt_mul_of_pos_right small (Nat.pow_pos (by decide))).trans_le enough
  have quotient := (Nat.div_lt_iff_lt_mul positive).mpr scaled
  have bound := (Nat.div_lt_iff_lt_mul positive).mp (lt_ten_pow_log10 quotient (Nat.le_refl _))
  have place : ((log10 (n * 10 ^ shift / divisor) : Int) - shift + 1) =
      ((log10 (n * 10 ^ shift / divisor) + 1 : Nat) : Int) - shift := by omega
  rw [place, zpow_sub₀ (by decide), zpow_natCast, zpow_natCast, div_mul_eq_mul_div,
    lt_div_iff₀ (by positivity)]
  exact_mod_cast bound

theorem units_lt_leadingPower (finite : m.rank < infinityRank) :
    (m.units : ℚ) < 10 ^ (m.leadingPower + 1) * unitsPerOne :=
  lt_ten_zpow_log10_mul 324 unitsPerOne_pos (unitsOfRank_strictMono finite) (by decide +kernel)

end

/-- The coefficients of the two points next to the value are the number of steps in it, and one
more. -/
theorem onGrid?_coefficient_le {tie : Tie} {exponent : Int} {d : Decimal}
    (found : m.onGrid? tie exponent = some d) {bound : Nat}
    (less : (m.units : ℚ) < bound * 10 ^ exponent * unitsPerOne) : d.coefficient ≤ bound := by
  have steps : 2 * m.units * 10 ^ (-exponent).toNat <
      bound * (halfUnitsPerOne * 10 ^ exponent.toNat) := by
    rw [zpow_eq_pow_div_pow, mul_div_assoc', div_mul_eq_mul_div, lt_div_iff₀ (by positivity)]
      at less
    unfold halfUnitsPerOne
    generalize unitsPerOne = unit at *
    have whole : m.units * 10 ^ (-exponent).toNat < bound * 10 ^ exponent.toNat * unit := by
      exact_mod_cast less
    linarith
  unfold onGrid? at found
  dsimp only at found
  generalize 10 ^ (-exponent).toNat = up at *
  generalize halfUnitsPerOne * 10 ^ exponent.toNat = step at *
  have below : 2 * m.units * up / step < bound :=
    Nat.div_lt_of_lt_mul (steps.trans_eq (Nat.mul_comm ..))
  generalize (if 2 * (2 * m.units * up % step) = step then _ else _) = nearer at found
  split at found
  · obtain rfl := Option.some.inj found
    exact below
  · split at found
    · obtain rfl := Option.some.inj found
      exact below.le
    · cases found

end Magnitude

end ScriptCore
