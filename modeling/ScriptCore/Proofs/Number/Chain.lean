import Mathlib.Order.Monotone.Basic
import Mathlib.Tactic.Ring
import ScriptCore.Number.Magnitude

/-! # The chain of magnitudes

The value of a rank is a significand times a power of two. Above the subnormals the significand has
53 bits, and the next rank is one unit of the last bit further. So values grow with ranks, by a step
that the scale of the lower one gives.
-/

namespace ScriptCore

namespace Magnitude

def significandOfRank (rank : Nat) : Nat := rank - scaleOfRank rank * 2 ^ 52

theorem unitsOfRank_eq (rank : Nat) :
    unitsOfRank rank = significandOfRank rank * 2 ^ scaleOfRank rank := rfl

theorem rank_eq (rank : Nat) : rank = scaleOfRank rank * 2 ^ 52 + significandOfRank rank := by
  unfold significandOfRank scaleOfRank
  omega

theorem significandOfRank_lt (rank : Nat) : significandOfRank rank < 2 ^ 53 := by
  unfold significandOfRank scaleOfRank
  omega

theorem le_significandOfRank {rank : Nat} (scaled : 0 < scaleOfRank rank) :
    2 ^ 52 ≤ significandOfRank rank := by
  unfold significandOfRank scaleOfRank at *
  omega

/-- Within a block the next rank has the next significand. -/
theorem scaleOfRank_succ_of_lt {rank : Nat} (within : significandOfRank rank + 1 < 2 ^ 53) :
    scaleOfRank (rank + 1) = scaleOfRank rank := by
  unfold significandOfRank scaleOfRank at *
  omega

/-- From the last rank of a block the next one begins a block of twice the scale. -/
theorem scaleOfRank_succ_of_last {rank : Nat} (last : significandOfRank rank + 1 = 2 ^ 53) :
    scaleOfRank (rank + 1) = scaleOfRank rank + 1 := by
  unfold significandOfRank scaleOfRank at *
  omega

theorem unitsOfRank_succ (rank : Nat) :
    unitsOfRank (rank + 1) = unitsOfRank rank + 2 ^ scaleOfRank rank := by
  have whole := rank_eq rank
  have next := rank_eq (rank + 1)
  rcases Nat.lt_or_eq_of_le (significandOfRank_lt rank) with within | last
  · have scale := scaleOfRank_succ_of_lt within
    have significand : significandOfRank (rank + 1) = significandOfRank rank + 1 := by omega
    rw [unitsOfRank_eq, unitsOfRank_eq, scale, significand]
    ring
  · have scale := scaleOfRank_succ_of_last last
    have significand : significandOfRank (rank + 1) = 2 ^ 52 := by omega
    have full : significandOfRank rank = 2 ^ 53 - 1 := by omega
    rw [unitsOfRank_eq, unitsOfRank_eq, scale, significand, full, Nat.pow_succ 2 (scaleOfRank rank)]
    omega

/-- The first rank of a block is reached with the step of the block before. -/
theorem unitsOfRank_of_first {rank scale : Nat} (scaled : scaleOfRank rank = scale + 1)
    (first : significandOfRank rank = 2 ^ 52) :
    unitsOfRank rank = unitsOfRank (rank - 1) + 2 ^ scale := by
  have whole := rank_eq rank
  have previous : scaleOfRank (rank - 1) = scale := by
    unfold scaleOfRank at *
    omega
  have gap := unitsOfRank_succ (rank - 1)
  rwa [previous, Nat.sub_add_cancel (by omega)] at gap

theorem unitsOfRank_strictMono : StrictMono unitsOfRank :=
  strictMono_nat_of_lt_succ fun rank => by
    rw [unitsOfRank_succ]
    exact Nat.lt_add_of_pos_right (Nat.two_pow_pos _)

end Magnitude

end ScriptCore
