import Mathlib.Algebra.Order.Field.Basic
import Mathlib.Algebra.Order.Ring.Rat
import Mathlib.Tactic.FieldSimp
import Mathlib.Tactic.Linarith
import Mathlib.Tactic.Positivity
import ScriptCore.Proofs.Number.Chain

/-! # Rounding to the chain

Every rank attracts the numbers between the midpoints to its two neighbours, and an even rank also
those midpoints. A fraction is rounded to the rank that attracts it. Where the fraction lies below
its rank at the beginning of a block, the rounding is done on the finer scale of the block before
and carries into the new one.
-/

namespace ScriptCore

theorem roundHalfEven_eq {numerator denominator quotient : Nat} (positive : 0 < denominator)
    (lower : 2 * (quotient * denominator) ≤ 2 * numerator + denominator)
    (upper : 2 * numerator ≤ 2 * (quotient * denominator) + denominator)
    (tie : 2 * (quotient * denominator) = 2 * numerator + denominator ∨
      2 * numerator = 2 * (quotient * denominator) + denominator → quotient % 2 = 0) :
    roundHalfEven numerator denominator = quotient := by
  have split := Nat.div_add_mod' numerator denominator
  have remainder := Nat.mod_lt numerator positive
  unfold roundHalfEven
  dsimp only
  generalize numerator / denominator = below at *
  generalize numerator % denominator = rest at *
  -- The quotient is the floor or one more, and the remainder decides which.
  have atLeast : below ≤ quotient := by
    refine Nat.le_of_not_lt fun smaller => ?_
    have product := Nat.mul_le_mul_right denominator (Nat.succ_le_of_lt smaller)
    rw [Nat.succ_mul] at product
    omega
  have atMost : quotient ≤ below + 1 := by
    refine Nat.le_of_not_lt fun greater => ?_
    have product := Nat.mul_le_mul_right denominator (Nat.succ_le_of_lt greater)
    rw [Nat.succ_mul, Nat.succ_mul] at product
    omega
  rcases Nat.lt_or_eq_of_le atMost with less | equal
  · obtain rfl : quotient = below := by omega
    split
    · rfl
    · split
      · omega
      · rw [if_pos (tie (by omega))]
  · subst equal
    have product : (below + 1) * denominator = below * denominator + denominator :=
      Nat.succ_mul below denominator
    split
    · omega
    · split
      · rfl
      · have even := tie (by omega)
        rw [if_neg (by omega)]

namespace Magnitude

/-- The block of a fraction is that of its integer part, the subnormals taken together. -/
theorem nearestRank_of_scale {numerator denominator scale : Nat} (positive : 0 < denominator)
    (lower : scale = 0 ∨ denominator * 2 ^ (52 + scale) ≤ numerator)
    (upper : numerator < denominator * 2 ^ (53 + scale)) :
    nearestRank numerator denominator =
      scale * 2 ^ 52 + roundHalfEven numerator (denominator * 2 ^ scale) := by
  have below : numerator / denominator < 2 ^ (53 + scale) :=
    Nat.div_lt_of_lt_mul upper
  have block : (numerator / denominator).log2 - 52 = scale := by
    by_cases none : numerator / denominator = 0
    · rw [none, Nat.log2_zero]
      rcases lower with zero | large
      · omega
      · have above := (Nat.le_div_iff_mul_le positive).mpr (Nat.mul_comm .. ▸ large)
        have := Nat.two_pow_pos (52 + scale)
        omega
    · have less := (Nat.log2_lt none).mpr below
      rcases lower with zero | large
      · omega
      · have above := (Nat.le_log2 none).mpr
          ((Nat.le_div_iff_mul_le positive).mpr (Nat.mul_comm .. ▸ large))
        omega
  unfold nearestRank
  dsimp only
  rw [block]

theorem scaleOfRank_pred_le (rank : Nat) : scaleOfRank (rank - 1) ≤ scaleOfRank rank := by
  unfold scaleOfRank
  omega

/-- The step up to a rank is at most that of its own block. -/
theorem unitsOfRank_le_pred_add (rank : Nat) :
    unitsOfRank rank ≤ unitsOfRank (rank - 1) + 2 ^ scaleOfRank rank := by
  cases rank with
  | zero => exact Nat.zero_le _
  | succ before =>
    rw [unitsOfRank_succ, Nat.add_sub_cancel]
    have := Nat.pow_le_pow_right Nat.two_pos (scaleOfRank_pred_le (before + 1))
    rw [Nat.add_sub_cancel] at this
    omega

theorem nearestRank_of_significand {numerator denominator scale significand : Nat}
    (positive : 0 < denominator)
    (block : scale = 0 ∨ 2 ^ 52 * (denominator * 2 ^ scale) ≤ numerator)
    (within : numerator < 2 ^ 53 * (denominator * 2 ^ scale))
    (lower : 2 * (significand * (denominator * 2 ^ scale)) ≤
      2 * numerator + denominator * 2 ^ scale)
    (upper : 2 * numerator ≤
      2 * (significand * (denominator * 2 ^ scale)) + denominator * 2 ^ scale)
    (tie : 2 * (significand * (denominator * 2 ^ scale)) = 2 * numerator + denominator * 2 ^ scale ∨
      2 * numerator = 2 * (significand * (denominator * 2 ^ scale)) + denominator * 2 ^ scale →
        significand % 2 = 0) :
    nearestRank numerator denominator = scale * 2 ^ 52 + significand := by
  have first : denominator * 2 ^ (52 + scale) = 2 ^ 52 * (denominator * 2 ^ scale) := by ring
  have last : denominator * 2 ^ (53 + scale) = 2 ^ 53 * (denominator * 2 ^ scale) := by ring
  have step : 0 < denominator * 2 ^ scale := Nat.mul_pos positive (Nat.two_pow_pos scale)
  rw [nearestRank_of_scale positive (first ▸ block) (last ▸ within),
    roundHalfEven_eq step lower upper tie]

/-- Just below the first rank of a block the finer scale applies, and the rounding carries. -/
theorem nearestRank_of_blockStart {numerator denominator scale : Nat} (positive : 0 < denominator)
    (lower : 2 ^ 54 * (denominator * 2 ^ scale) ≤ 2 * numerator + denominator * 2 ^ scale)
    (small : numerator < 2 ^ 53 * (denominator * 2 ^ scale)) :
    nearestRank numerator denominator = (scale + 2) * 2 ^ 52 := by
  have rounded : nearestRank numerator denominator = scale * 2 ^ 52 + 2 ^ 53 :=
    nearestRank_of_significand positive (by omega) small (by omega) (by omega) (fun _ => rfl)
  omega

theorem nearestRank_eq {numerator denominator rank : Nat} (positive : 0 < denominator)
    (lower : denominator * (unitsOfRank (rank - 1) + unitsOfRank rank) ≤ 2 * numerator)
    (upper : 2 * numerator ≤ denominator * (unitsOfRank rank + unitsOfRank (rank + 1)))
    (tie : denominator * (unitsOfRank (rank - 1) + unitsOfRank rank) = 2 * numerator ∨
      2 * numerator = denominator * (unitsOfRank rank + unitsOfRank (rank + 1)) → rank % 2 = 0) :
    nearestRank numerator denominator = rank := by
  have whole := rank_eq rank
  have step : 0 < denominator * 2 ^ scaleOfRank rank :=
    Nat.mul_pos positive (Nat.two_pow_pos _)
  have bounded : significandOfRank rank * (denominator * 2 ^ scaleOfRank rank) ≤
      (2 ^ 53 - 1) * (denominator * 2 ^ scaleOfRank rank) :=
    Nat.mul_le_mul_right _ (Nat.le_pred_of_lt (significandOfRank_lt rank))
  have before := Nat.mul_le_mul_left denominator (unitsOfRank_le_pred_add rank)
  have value : denominator * unitsOfRank rank =
      significandOfRank rank * (denominator * 2 ^ scaleOfRank rank) := by
    rw [unitsOfRank_eq]
    ring
  simp only [unitsOfRank_succ, Nat.mul_add, value] at lower upper tie before
  by_cases block : scaleOfRank rank = 0 ∨
      2 ^ 52 * (denominator * 2 ^ scaleOfRank rank) ≤ numerator
  · have rounded : nearestRank numerator denominator =
        scaleOfRank rank * 2 ^ 52 + significandOfRank rank := by
      refine nearestRank_of_significand positive block (by omega) (by omega) (by omega) ?_
      intro half
      have even := tie (by omega)
      omega
    rw [rounded, ← whole]
  · -- The fraction lies below the rank that begins a block, on the scale of the block before.
    obtain ⟨scaled, small⟩ := not_or.mp block
    obtain ⟨scale, scaleEq⟩ := Nat.exists_eq_add_one_of_ne_zero scaled
    have least := Nat.mul_le_mul_right (denominator * 2 ^ scaleOfRank rank)
      (le_significandOfRank (Nat.pos_of_ne_zero scaled))
    have first : significandOfRank rank = 2 ^ 52 := by
      refine Nat.le_antisymm (Nat.le_of_not_lt fun larger => ?_)
        (le_significandOfRank (Nat.pos_of_ne_zero scaled))
      have product := Nat.mul_le_mul_right (denominator * 2 ^ scaleOfRank rank) larger
      omega
    have finer : denominator * 2 ^ scaleOfRank rank = 2 * (denominator * 2 ^ scale) := by
      rw [scaleEq]
      ring
    have spread := congrArg (denominator * ·) (unitsOfRank_of_first scaleEq first)
    simp only [Nat.mul_add, value] at spread
    rw [first] at lower spread
    have rounded : nearestRank numerator denominator = (scale + 2) * 2 ^ 52 :=
      nearestRank_of_blockStart positive (by omega) (by omega)
    omega

/-- The least number of units that rounds to a magnitude, if its rank is even. -/
def lowerEnd (m : Magnitude) : ℚ := (unitsOfRank (m.rank - 1) + m.units) / 2

/-- The greatest number of units that rounds to a magnitude, if its rank is even. -/
def upperEnd (m : Magnitude) : ℚ := (m.units + unitsOfRank (m.rank + 1)) / 2

/-- A number of units between the midpoints, which themselves belong to an even rank. -/
structure Attracts (m : Magnitude) (units : ℚ) : Prop where
  lower : m.lowerEnd ≤ units
  upper : units ≤ m.upperEnd
  tie : units = m.lowerEnd ∨ units = m.upperEnd → m.rank % 2 = 0

theorem Attracts.nearest_eq {m : Magnitude} {numerator denominator : Nat}
    (finite : m.rank < infinityRank) (positive : 0 < denominator)
    (attracted : m.Attracts (numerator / denominator)) : nearest numerator denominator = m := by
  obtain ⟨lower, upper, tie⟩ := attracted
  have divides : (0 : ℚ) < denominator := Nat.cast_pos.mpr positive
  unfold lowerEnd upperEnd units at *
  rw [div_le_div_iff₀ two_pos divides] at lower
  rw [div_le_div_iff₀ divides two_pos] at upper
  rw [div_eq_div_iff divides.ne' two_pos.ne', div_eq_div_iff divides.ne' two_pos.ne'] at tie
  have rounded : nearestRank numerator denominator = m.rank := by
    apply nearestRank_eq positive
    · rw [Nat.mul_comm, Nat.mul_comm 2]
      exact_mod_cast lower
    · rw [Nat.mul_comm, Nat.mul_comm denominator]
      exact_mod_cast upper
    · rw [Nat.mul_comm, Nat.mul_comm 2, Nat.mul_comm denominator, eq_comm]
      exact_mod_cast tie
  have cut := Nat.min_eq_left (Nat.le_of_lt finite)
  unfold nearest
  cases m
  simp only [rounded, cut]

end Magnitude

end ScriptCore
