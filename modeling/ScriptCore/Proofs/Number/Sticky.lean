import ScriptCore.Proofs.Number.Nearest

/-! # What follows the bits that are rounded

A power of two moves a magnitude to another block and changes nothing else. A number that is rounded
and then moved is the number moved and then rounded, even if lower bits have come in meanwhile, with
one exception: half a unit in the last place goes down to an even neighbour, and any bit after it
would have made it go up.
-/

namespace ScriptCore

variable {n half factor rest : Nat}

/-- Halfway between an even multiple of the step and the next one. -/
def IsLowTie (n half : Nat) : Prop := n / (2 * half) % 2 = 0 ∧ n % (2 * half) = half

instance (n half : Nat) : Decidable (IsLowTie n half) := inferInstanceAs (Decidable (_ ∧ _))

/-- The bits that come in below matter for a tie only. -/
theorem roundHalfEven_mul_add (proper : rest < factor) (positive : 0 < half) :
    roundHalfEven (n * factor + rest) (2 * half * factor) =
      roundHalfEven n (2 * half) + if IsLowTie n half ∧ rest ≠ 0 then 1 else 0 := by
  have scaled : 0 < factor := Nat.zero_lt_of_lt proper
  rcases Nat.eq_zero_or_pos rest with rfl | sticky
  · rw [Nat.add_zero, roundHalfEven_mul_right scaled, if_neg (fun lost => lost.2 rfl), Nat.add_zero]
  have quotient : (n * factor + rest) / (2 * half * factor) = n / (2 * half) := by
    rw [Nat.mul_comm (2 * half), ← Nat.div_div_eq_div_mul, Nat.add_comm,
      Nat.add_mul_div_right _ _ scaled, Nat.div_eq_of_lt proper, Nat.zero_add]
  have remainder : (n * factor + rest) % (2 * half * factor) = n % (2 * half) * factor + rest := by
    have whole := Nat.div_add_mod' (n * factor + rest) (2 * half * factor)
    have parts := congrArg (· * factor) (Nat.div_add_mod' n (2 * half))
    rw [Nat.add_mul, Nat.mul_assoc] at parts
    rw [quotient] at whole
    omega
  have width : 2 * half * factor = 2 * (half * factor) := Nat.mul_assoc ..
  by_cases lost : IsLowTie n half ∧ rest ≠ 0
  · obtain ⟨⟨even, tie⟩, -⟩ := id lost
    rw [if_pos lost, roundHalfEven, roundHalfEven, quotient, remainder, width, tie]
    rw [if_neg (by omega), if_pos (by omega), if_neg (by omega), if_neg (by omega), if_pos even]
  · rw [if_neg lost, Nat.add_zero, roundHalfEven, roundHalfEven, quotient, remainder, width]
    unfold IsLowTie at lost
    generalize n / (2 * half) = below at *
    generalize n % (2 * half) = left at *
    rcases Nat.lt_trichotomy left half with less | rfl | more
    · have product : left * factor + factor ≤ half * factor :=
        Nat.succ_mul left factor ▸ Nat.mul_le_mul_right factor less
      rw [if_pos (by omega), if_pos (by omega)]
    · rw [if_neg (by omega), if_pos (by omega), if_neg (by omega), if_neg (by omega),
        if_neg (by omega)]
    · have product : half * factor + factor ≤ left * factor :=
        Nat.succ_mul half factor ▸ Nat.mul_le_mul_right factor more
      rw [if_neg (by omega), if_pos (by omega), if_neg (by omega), if_pos (by omega)]

theorem IsLowTie.even (tie : IsLowTie n half) :
    roundHalfEven n (2 * half) % 2 = 0 := by
  obtain ⟨even, middle⟩ := tie
  rw [roundHalfEven, middle, if_neg (Nat.lt_irrefl _), if_neg (Nat.lt_irrefl _), if_pos even]
  exact even

namespace Magnitude

/-! ## Ranks in other blocks -/

theorem nearestRank_mul_two_pow (large : 2 ^ 52 ≤ n) (shift : Nat) :
    nearestRank (n * 2 ^ shift) 1 =
      (n.log2 - 52 + shift) * 2 ^ 52 + roundHalfEven n (2 ^ (n.log2 - 52)) := by
  have some : n ≠ 0 := by omega
  have length : 52 ≤ n.log2 := (Nat.le_log2 some).mpr large
  have first : 52 + (n.log2 - 52 + shift) = n.log2 + shift := by omega
  have last : 53 + (n.log2 - 52 + shift) = n.log2 + 1 + shift := by omega
  have lower : 1 * 2 ^ (52 + (n.log2 - 52 + shift)) ≤ n * 2 ^ shift := by
    rw [first, Nat.one_mul, Nat.pow_add]
    exact Nat.mul_le_mul_right _ (Nat.log2_self_le some)
  have upper : n * 2 ^ shift < 1 * 2 ^ (53 + (n.log2 - 52 + shift)) := by
    rw [last, Nat.one_mul, Nat.pow_add]
    exact Nat.mul_lt_mul_of_pos_right Nat.lt_log2_self (Nat.two_pow_pos shift)
  rw [nearestRank_of_scale Nat.one_pos (.inr lower) upper, Nat.one_mul, Nat.pow_add,
    roundHalfEven_mul_right (Nat.two_pow_pos shift)]

theorem log2_mul_two_pow_add {shift : Nat} (some : n ≠ 0) (proper : rest < 2 ^ shift) :
    (n * 2 ^ shift + rest).log2 = n.log2 + shift := by
  have first := Nat.mul_le_mul_right (2 ^ shift) (Nat.log2_self_le some)
  have last := Nat.mul_le_mul_right (2 ^ shift) (Nat.succ_le_of_lt (Nat.lt_log2_self (n := n)))
  have least := Nat.two_pow_pos shift
  rw [Nat.succ_mul] at last
  rw [← Nat.pow_add] at first last
  have longer : n.log2 + 1 + shift = n.log2 + shift + 1 := Nat.add_right_comm ..
  rw [longer] at last
  exact (Nat.log2_eq_iff (by omega)).mpr ⟨by omega, by omega⟩

/-- Beyond 53 bits the step between magnitudes has a half that is a natural. -/
theorem two_pow_step (large : 2 ^ 53 ≤ n) : 2 ^ (n.log2 - 52) = 2 * 2 ^ (n.log2 - 53) := by
  have length : 53 ≤ n.log2 := (Nat.le_log2 (by omega)).mpr large
  rw [← Nat.pow_succ', Nat.succ_eq_add_one]
  congr 1
  omega

/-- What comes in below a number that is rounded changes at most the last place. -/
theorem nearestRank_mul_add {shift : Nat} (large : 2 ^ 53 ≤ n) (proper : rest < 2 ^ shift)
    (exponent : Nat) :
    nearestRank ((n * 2 ^ shift + rest) * 2 ^ exponent) 1 =
      nearestRank (n * 2 ^ exponent) 1 + shift * 2 ^ 52 +
        if IsLowTie n (2 ^ (n.log2 - 53)) ∧ rest ≠ 0 then 1 else 0 := by
  have some : n ≠ 0 := by omega
  have length : 53 ≤ n.log2 := (Nat.le_log2 some).mpr large
  have more : 2 ^ 52 ≤ n * 2 ^ shift + rest := by
    have := Nat.le_mul_of_pos_right n (Nat.two_pow_pos shift)
    omega
  have step := two_pow_step large
  have wide : 2 ^ (n.log2 + shift - 52) = 2 * 2 ^ (n.log2 - 53) * 2 ^ shift := by
    rw [← step, ← Nat.pow_add]
    congr 1
    omega
  have block : n.log2 + shift - 52 + exponent = n.log2 - 52 + exponent + shift := by omega
  rw [nearestRank_mul_two_pow more, nearestRank_mul_two_pow (by omega),
    log2_mul_two_pow_add some proper, wide, step,
    roundHalfEven_mul_add proper (Nat.two_pow_pos _), block, Nat.add_mul _ shift]
  omega

theorem nearestRank_even_of_lowTie (large : 2 ^ 53 ≤ n) (tie : IsLowTie n (2 ^ (n.log2 - 53)))
    (exponent : Nat) : nearestRank (n * 2 ^ exponent) 1 % 2 = 0 := by
  have even := tie.even
  rw [nearestRank_mul_two_pow (by omega), two_pow_step large]
  omega

/-- A power of two moves a rank to another block. -/
theorem unitsOfRank_add_block {rank : Nat} (normal : 2 ^ 52 ≤ rank) (blocks : Nat) :
    unitsOfRank (rank + blocks * 2 ^ 52) = unitsOfRank rank * 2 ^ blocks := by
  have scale : scaleOfRank (rank + blocks * 2 ^ 52) = scaleOfRank rank + blocks := by
    unfold scaleOfRank
    omega
  have significand : significandOfRank (rank + blocks * 2 ^ 52) = significandOfRank rank := by
    unfold significandOfRank
    rw [scale, Nat.add_mul, Nat.add_sub_add_right]
  rw [unitsOfRank_eq, unitsOfRank_eq, scale, significand, Nat.pow_add, Nat.mul_assoc]

theorem nearestRank_unitsOfRank (rank : Nat) : nearestRank (unitsOfRank rank) 1 = rank :=
  Nat.le_antisymm (nearestRank_le Nat.one_pos (Nat.one_mul _).ge)
    (le_nearestRank Nat.one_pos (Nat.one_mul _).le)

/-- Less than half of the step above a rank is rounded away. -/
theorem nearestRank_add_of_lt {rank less : Nat} (small : 2 * less < 2 ^ scaleOfRank rank) :
    nearestRank (unitsOfRank rank + less) 1 = rank := by
  have before := unitsOfRank_strictMono.monotone (Nat.sub_le rank 1)
  have after := unitsOfRank_succ rank
  apply nearestRank_eq Nat.one_pos
  · omega
  · omega
  · rintro (below | above)
    · -- Only the lowest rank is its own predecessor.
      have same : unitsOfRank (rank - 1) = unitsOfRank rank := by omega
      have := unitsOfRank_strictMono.injective same
      omega
    · omega

end Magnitude

end ScriptCore
