import ScriptCore.Proofs.Number.Precision
import ScriptCore.Proofs.Number.RoundTrip

/-! # No shorter decimal

What a magnitude attracts has no gaps, so a grid with any attracted point has one next to the value,
and the search takes the nearer of the two that are. A decimal of as many digits as a grid has before
the last place lies on that grid, or beyond the first power of ten below the value, which lies on
every grid. So no attracted decimal has fewer digits than the shortest one, and none of as many
digits is nearer.
-/

namespace ScriptCore

namespace Decimal

theorem stripZeros_exponent_le (fuel : Nat) (d : Decimal) :
    d.exponent ≤ (d.stripZeros fuel).exponent := by
  induction fuel generalizing d with
  | zero => exact le_refl _
  | succ fuel ih =>
    rw [stripZeros]
    split
    · exact (Int.le_of_lt (Int.lt_succ d.exponent)).trans (ih _)
    · exact le_refl _

/-- No zero is left at the end of a coefficient if each round can take one. -/
theorem stripZeros_coefficient_mod {fuel : Nat} {d : Decimal} (positive : 0 < d.coefficient)
    (few : d.coefficient < 10 ^ (fuel + 1)) : (d.stripZeros fuel).coefficient % 10 ≠ 0 := by
  induction fuel generalizing d with
  | zero =>
    rw [stripZeros]
    omega
  | succ fuel ih =>
    rw [stripZeros]
    split
    · apply ih
      · dsimp only
        omega
      · dsimp only
        rw [Nat.pow_succ] at few
        omega
    · omega

theorem digits_length_pos (d : Decimal) : 0 < d.digits.length :=
  List.length_pos_of_ne_nil (digitsOf_ne_nil (by decide) d.coefficient)

theorem lt_ten_pow_length (d : Decimal) : d.coefficient < 10 ^ d.digits.length :=
  lt_pow_length_digitsOf (by decide) d.coefficient

end Decimal

namespace Magnitude

variable {m : Magnitude}

/-! ## Points of a grid -/

/-- What lies between two numbers that a magnitude attracts is attracted too. -/
theorem Attracts.between {low high units : ℚ} (first : m.Attracts low) (second : m.Attracts high)
    (atLeast : low ≤ units) (atMost : units ≤ high) : m.Attracts units := by
  constructor
  · exact first.lower.trans atLeast
  · exact atMost.trans second.upper
  · rintro (atLower | atUpper)
    · exact first.tie (.inl (le_antisymm (atLeast.trans_eq atLower) first.lower))
    · exact second.tie (.inr (le_antisymm second.upper (atUpper.symm.trans_le atMost)))

theorem reaches_of_half_le {distance room scale : Nat} (positive : 0 < scale)
    (within : (distance : ℚ) / (2 * scale) ≤ room / 2)
    (tie : (distance : ℚ) / (2 * scale) = room / 2 → m.rank % 2 = 0) :
    m.reaches distance (room * scale) = true := by
  have divides : (0 : ℚ) < scale := Nat.cast_pos.mpr positive
  rw [reaches_iff]
  constructor
  · rw [div_le_div_iff₀ (by positivity) two_pos] at within
    have scaled : (distance : ℚ) ≤ room * scale := by linarith
    exact_mod_cast scaled
  · rintro rfl
    apply tie
    push_cast
    field_simp

theorem reaches_of_attracts_below {distance scale : Nat} (positive : 0 < scale)
    (attracted : m.Attracts (m.units - distance / (2 * scale))) :
    m.reaches distance (m.roomBelow * scale) = true := by
  obtain ⟨lower, -, tie⟩ := attracted
  apply reaches_of_half_le positive
  · rw [roomBelow, Nat.cast_sub m.pred_le_units]
    unfold lowerEnd at lower
    linarith
  · intro half
    apply tie
    left
    rw [half, roomBelow, Nat.cast_sub m.pred_le_units, lowerEnd]
    ring

theorem reaches_of_attracts_above {distance scale : Nat} (positive : 0 < scale)
    (attracted : m.Attracts (m.units + distance / (2 * scale))) :
    m.reaches distance (m.roomAbove * scale) = true := by
  obtain ⟨-, upper, tie⟩ := attracted
  apply reaches_of_half_le positive
  · rw [roomAbove, Nat.cast_sub m.units_lt_succ.le]
    unfold upperEnd at upper
    linarith
  · intro half
    apply tie
    right
    rw [half, roomAbove, Nat.cast_sub m.units_lt_succ.le, upperEnd]
    ring

section Neighbours

variable {count below rest step up : Nat} (positive : 0 < up)
  (parts : below * step + rest = 2 * m.units * up)
include positive parts

theorem lowerPoint_eq : ((below * step : Nat) : ℚ) / (2 * up) = m.units - rest / (2 * up) := by
  have divides : (0 : ℚ) < up := Nat.cast_pos.mpr positive
  have whole : (below * step : ℚ) + rest = 2 * m.units * up := by exact_mod_cast parts
  push_cast
  field_simp
  linarith

theorem upperPoint_eq (short : rest < step) :
    (((below + 1) * step : Nat) : ℚ) / (2 * up) = m.units + (step - rest : Nat) / (2 * up) := by
  have divides : (0 : ℚ) < up := Nat.cast_pos.mpr positive
  have whole : (below * step : ℚ) + rest = 2 * m.units * up := by exact_mod_cast parts
  rw [Nat.cast_sub short.le]
  push_cast
  field_simp
  linarith

/-- A point below the value is no nearer than the one next to it, which is attracted too. -/
theorem lowerPoint_of_attracts (attracted : m.Attracts ((count * step : Nat) / (2 * up)))
    (atMost : count ≤ below) :
    m.reaches rest (m.roomBelow * up) = true ∧
      (rest : ℚ) / (2 * up) ≤ |((count * step : Nat) : ℚ) / (2 * up) - m.units| := by
  have next := lowerPoint_eq positive parts
  have order : ((count * step : Nat) : ℚ) / (2 * up) ≤ (below * step : Nat) / (2 * up) := by
    have scaled := Nat.mul_le_mul_right step atMost
    gcongr
  have offset : (0 : ℚ) ≤ rest / (2 * up) := by positivity
  rw [next] at order
  constructor
  · apply reaches_of_attracts_below positive
    exact attracted.between m.attracts_units order (by linarith)
  · rw [abs_sub_comm, le_abs]
    left
    linarith

/-- A point above the value is no nearer than the one next to it, which is attracted too. -/
theorem upperPoint_of_attracts (short : rest < step)
    (attracted : m.Attracts ((count * step : Nat) / (2 * up))) (atLeast : below < count) :
    m.reaches (step - rest) (m.roomAbove * up) = true ∧
      ((step - rest : Nat) : ℚ) / (2 * up) ≤ |((count * step : Nat) : ℚ) / (2 * up) - m.units| := by
  have next := upperPoint_eq positive parts short
  have order : (((below + 1) * step : Nat) : ℚ) / (2 * up) ≤ (count * step : Nat) / (2 * up) := by
    have scaled := Nat.mul_le_mul_right step (Nat.succ_le_of_lt atLeast)
    gcongr
  have offset : (0 : ℚ) ≤ (step - rest : Nat) / (2 * up) := by positivity
  rw [next] at order
  constructor
  · apply reaches_of_attracts_above positive
    exact m.attracts_units.between attracted (by linarith) order
  · rw [le_abs]
    left
    linarith

end Neighbours

/-- A grid with an attracted point has one next to the value, and the search takes the nearest. -/
theorem onGrid?_of_attracts (tie : Tie) {exponent : Int} {count : Nat}
    (attracted : m.Attracts (Decimal.value ⟨count, exponent⟩ * unitsPerOne)) :
    ∃ d, m.onGrid? tie exponent = some d ∧ |d.value * unitsPerOne - m.units| ≤
      |Decimal.value ⟨count, exponent⟩ * unitsPerOne - m.units| := by
  have positive : 0 < 10 ^ (-exponent).toNat := Nat.pow_pos (by decide)
  have stepPositive : 0 < halfUnitsPerOne * 10 ^ exponent.toNat :=
    Nat.mul_pos halfUnitsPerOne_pos (Nat.pow_pos (by decide))
  have point := fun count => gridPoint_eq count exponent
  unfold onGrid?
  dsimp only
  rw [point] at attracted ⊢
  generalize 10 ^ (-exponent).toNat = up at *
  generalize halfUnitsPerOne * 10 ^ exponent.toNat = step at *
  have parts := Nat.div_add_mod' (2 * m.units * up) step
  have short := Nat.mod_lt (2 * m.units * up) stepPositive
  generalize 2 * m.units * up / step = below at *
  generalize 2 * m.units * up % step = rest at *
  have divides : (0 : ℚ) < 2 * up := by positivity
  have lower : |Decimal.value ⟨below, exponent⟩ * unitsPerOne - m.units| = rest / (2 * up) := by
    rw [point, lowerPoint_eq positive parts, sub_sub_cancel_left, abs_neg,
      abs_of_nonneg (by positivity)]
  have upper : |Decimal.value ⟨below + 1, exponent⟩ * unitsPerOne - m.units| =
      (step - rest : Nat) / (2 * up) := by
    rw [point, upperPoint_eq positive parts short, add_sub_cancel_left,
      abs_of_nonneg (by positivity)]
  generalize isNearer : (if 2 * rest = step then _ else _) = nearer
  have aboveNearer : nearer = true → ((step - rest : Nat) : ℚ) / (2 * up) ≤ rest / (2 * up) := by
    rintro rfl
    have order : step - rest ≤ rest := by
      split at isNearer
      · omega
      · have := of_decide_eq_true isNearer
        omega
    gcongr
  have belowNearer : nearer = false → (rest : ℚ) / (2 * up) ≤ (step - rest : Nat) / (2 * up) := by
    rintro rfl
    have order : rest ≤ step - rest := by
      split at isNearer
      · omega
      · have := of_decide_eq_false isNearer
        omega
    gcongr
  rcases Nat.lt_or_ge below count with above | atMost
  · obtain ⟨reads, farther⟩ := upperPoint_of_attracts positive parts short attracted above
    rw [reads, Bool.true_and]
    by_cases chosen : (nearer || !m.reaches rest (m.roomBelow * up)) = true
    · rw [if_pos chosen]
      exact ⟨_, rfl, upper.trans_le farther⟩
    · rw [Bool.or_eq_true, not_or, Bool.not_eq_true, Bool.not_eq_true', Bool.not_eq_false] at chosen
      rw [if_neg (by simp [chosen]), if_pos chosen.2]
      exact ⟨_, rfl, lower.trans_le ((belowNearer chosen.1).trans farther)⟩
  · obtain ⟨reads, farther⟩ := lowerPoint_of_attracts positive parts attracted atMost
    rw [reads, Bool.not_true, Bool.or_false]
    split
    · next chosen =>
      rw [Bool.and_eq_true] at chosen
      exact ⟨_, rfl, upper.trans_le ((aboveNearer chosen.2).trans farther)⟩
    · exact ⟨_, rfl, lower.trans_le farther⟩

/-! ## Fewest digits -/

/-- A decimal of few digits is on the grid of as many, or else that has a nearer point. -/
theorem exists_gridPoint (nonzero : 0 < m.rank) {other : Decimal} {places : Nat}
    (few : other.coefficient < 10 ^ (places + 1))
    (attracted : m.Attracts (other.value * unitsPerOne)) :
    ∃ count, m.Attracts (Decimal.value ⟨count, m.leadingPower - places⟩ * unitsPerOne) ∧
      |Decimal.value ⟨count, m.leadingPower - places⟩ * unitsPerOne - m.units| ≤
        |other.value * unitsPerOne - m.units| := by
  have unit : (0 : ℚ) < unitsPerOne := Nat.cast_pos.mpr unitsPerOne_pos
  have first := leadingPower_le (Nat.zero_lt_of_lt (pred_lt_units nonzero))
  generalize m.leadingPower = leading at *
  rcases lt_or_ge other.value (10 ^ leading) with below | above
  · -- The first power of ten below the value lies between.
    have power : Decimal.value ⟨10 ^ places, leading - places⟩ = 10 ^ leading := by
      rw [Decimal.value, Nat.cast_pow, Nat.cast_ofNat, ← zpow_natCast, ← zpow_add₀ (by decide),
        add_sub_cancel]
    have order := mul_lt_mul_of_pos_right below unit
    refine ⟨10 ^ places, ?_⟩
    rw [power]
    constructor
    · exact attracted.between m.attracts_units order.le first
    · rw [abs_sub_comm, abs_of_nonneg (by linarith), abs_sub_comm, abs_of_nonneg (by linarith)]
      linarith
  · have small : other.value < 10 ^ ((places : Int) + 1 + other.exponent) := by
      rw [Decimal.value, zpow_add₀ (by decide)]
      have scale : (0 : ℚ) < 10 ^ other.exponent := by positivity
      exact mul_lt_mul_of_pos_right (by exact_mod_cast few) scale
    have order := (zpow_lt_zpow_iff_right₀ (by decide)).mp (above.trans_lt small)
    have shift : ((other.exponent - (leading - places)).toNat : Int) + (leading - places) =
        other.exponent := by
      clear first
      omega
    refine ⟨other.coefficient * 10 ^ (other.exponent - (leading - places)).toNat, ?_⟩
    have same : Decimal.value ⟨other.coefficient *
        10 ^ (other.exponent - (leading - places)).toNat, leading - places⟩ = other.value := by
      rw [Decimal.value, Decimal.value, Nat.cast_mul, Nat.cast_pow, Nat.cast_ofNat, mul_assoc,
        ← zpow_natCast, ← zpow_add₀ (by decide), shift]
    rw [same]
    exact ⟨attracted, le_refl _⟩

/-- A decimal without trailing zeros that a magnitude attracts, such that no attracted decimal has
fewer digits and none of as many digits is nearer. -/
structure IsShortest (m : Magnitude) (d : Decimal) : Prop where
  attracted : m.Attracts (d.value * unitsPerOne)
  stripped : d.coefficient % 10 ≠ 0
  fewest : ∀ other : Decimal, m.Attracts (other.value * unitsPerOne) →
    d.digits.length ≤ other.digits.length
  nearest : ∀ other : Decimal, m.Attracts (other.value * unitsPerOne) →
    other.digits.length = d.digits.length →
      |d.value * unitsPerOne - m.units| ≤ |other.value * unitsPerOne - m.units|

/-- The search leaves a coefficient of at most as many digits as the grid has. -/
theorem coefficient_le_of_onGrid? (finite : m.rank < infinityRank) {tie : Tie} {places : Nat}
    {d : Decimal} (point : m.onGrid? tie (m.leadingPower - places) = some d) :
    d.coefficient ≤ 10 ^ (places + 1) := by
  apply onGrid?_coefficient_le point
  have power : ((10 ^ (places + 1) : Nat) : ℚ) * 10 ^ (m.leadingPower - places) =
      10 ^ (m.leadingPower + 1) := by
    rw [Nat.cast_pow, Nat.cast_ofNat, ← zpow_natCast, ← zpow_add₀ (by decide), Nat.cast_add,
      Nat.cast_one]
    congr 1
    ring
  rw [power]
  exact units_lt_leadingPower finite

theorem shortest_isShortest (nonzero : 0 < m.rank) (finite : m.rank < infinityRank) (tie : Tie) :
    m.IsShortest (m.shortest tie) := by
  obtain ⟨more, d, few, point, same, missed⟩ := exists_onGrid? nonzero tie
  have attracted := onGrid?_attracts nonzero point
  have value : (m.shortest tie).value = d.value := by rw [same, Decimal.stripZeros_value]
  have bounded := coefficient_le_of_onGrid? finite point
  have positive : 0 < d.coefficient := by
    refine Nat.pos_of_ne_zero fun none => ?_
    have valued := attracted.value_pos nonzero
    simp [Decimal.value, none] at valued
  have stripped : (m.shortest tie).coefficient % 10 ≠ 0 := by
    rw [same]
    apply Decimal.stripZeros_coefficient_mod positive
    calc d.coefficient ≤ 10 ^ (more + 1) := bounded
      _ < 10 ^ (17 + 1) := Nat.pow_lt_pow_right (by decide) (by omega)
  have length : (m.shortest tie).digits.length ≤ more + 1 := by
    apply length_digitsOf_le (by decide) (Nat.succ_pos more)
    apply Nat.lt_of_le_of_ne
    · rw [same]
      exact (d.stripZeros_coefficient_le 17).trans bounded
    · intro full
      rw [full, Nat.pow_succ, Nat.mul_mod_left] at stripped
      exact stripped rfl
  -- A decimal with fewer digits would have been found on a grid that was tried before.
  have reached (other : Decimal) (places : Nat) (digits : other.digits.length = places + 1)
      (isAttracted : m.Attracts (other.value * unitsPerOne)) :
      more ≤ places ∧ (places = more →
        |d.value * unitsPerOne - m.units| ≤ |other.value * unitsPerOne - m.units|) := by
    obtain ⟨count, onGrid, nearer⟩ :=
      exists_gridPoint nonzero (digits ▸ other.lt_ten_pow_length) isAttracted
    obtain ⟨found, isFound, nearest⟩ := onGrid?_of_attracts tie onGrid
    constructor
    · refine Nat.le_of_not_lt fun less => ?_
      rw [missed places less] at isFound
      cases isFound
    · rintro rfl
      rw [point] at isFound
      obtain rfl := Option.some.inj isFound
      exact nearest.trans nearer
  have positiveLength (other : Decimal) :=
    Nat.exists_eq_add_one_of_ne_zero other.digits_length_pos.ne'
  constructor
  · rw [value]
    exact attracted
  · exact stripped
  · intro other isAttracted
    obtain ⟨places, digits⟩ := positiveLength other
    have atLeast := (reached other places digits isAttracted).1
    omega
  · intro other isAttracted sameLength
    obtain ⟨places, digits⟩ := positiveLength other
    obtain ⟨atLeast, nearest⟩ := reached other places digits isAttracted
    rw [value]
    exact nearest (by omega)

end Magnitude

end ScriptCore
