import ScriptCore.Proofs.Number.Shortest

/-! # Exact values

A number of units is exact when a finite magnitude has just that many: when 53 bits hold it, up to a
power of two. Rounding is monotone, so it leaves exact values where they are and carries nothing
past them.
-/

namespace ScriptCore

theorem roundHalfEven_mul_right {factor : Nat} (positive : 0 < factor)
    (numerator denominator : Nat) :
    roundHalfEven (numerator * factor) (denominator * factor) =
      roundHalfEven numerator denominator := by
  have twice (rest : Nat) : 2 * (rest * factor) = 2 * rest * factor := (Nat.mul_assoc ..).symm
  rw [roundHalfEven, roundHalfEven]
  simp only [Nat.mul_div_mul_right _ _ positive, Nat.mul_mod_mul_right, twice,
    Nat.mul_lt_mul_right positive]

namespace Magnitude

/-! ## Rounding and order -/

theorem le_unitsOfRank (rank : Nat) : rank ≤ unitsOfRank rank :=
  unitsOfRank_strictMono.le_apply

/-- A fraction of units lies between the values of two successive ranks. -/
theorem exists_floorRank (numerator : Nat) {denominator : Nat} (positive : 0 < denominator) :
    ∃ rank, denominator * unitsOfRank rank ≤ numerator ∧
      numerator < denominator * unitsOfRank (rank + 1) := by
  have beyond : ∃ rank, numerator < denominator * unitsOfRank rank :=
    ⟨numerator + 1, Nat.lt_of_lt_of_le (le_unitsOfRank (numerator + 1))
      (Nat.le_mul_of_pos_left _ positive)⟩
  obtain ⟨rank, found⟩ : ∃ rank, Nat.find beyond = rank + 1 := by
    apply Nat.exists_eq_add_one_of_ne_zero
    rw [Ne, Nat.find_eq_zero]
    exact Nat.not_lt_zero numerator
  exact ⟨rank, Nat.le_of_not_lt (Nat.find_min beyond (by omega)), found ▸ Nat.find_spec beyond⟩

/-- A fraction of units lies between the midpoints from a rank to its neighbours, which belong to an
even rank. -/
structure RoundsTo (numerator denominator rank : Nat) : Prop where
  lower : denominator * (unitsOfRank (rank - 1) + unitsOfRank rank) ≤ 2 * numerator
  upper : 2 * numerator ≤ denominator * (unitsOfRank rank + unitsOfRank (rank + 1))
  tie : denominator * (unitsOfRank (rank - 1) + unitsOfRank rank) = 2 * numerator ∨
    2 * numerator = denominator * (unitsOfRank rank + unitsOfRank (rank + 1)) → rank % 2 = 0

theorem RoundsTo.nearestRank_eq {numerator denominator rank : Nat}
    (rounds : RoundsTo numerator denominator rank) (positive : 0 < denominator) :
    nearestRank numerator denominator = rank :=
  Magnitude.nearestRank_eq positive rounds.lower rounds.upper rounds.tie

/-- Between two ranks a fraction is rounded to one of them, and on the lower one to that. -/
theorem exists_roundsTo {numerator denominator floor : Nat} (positive : 0 < denominator)
    (lower : denominator * unitsOfRank floor ≤ numerator)
    (upper : numerator < denominator * unitsOfRank (floor + 1)) :
    ∃ rank, RoundsTo numerator denominator rank ∧
      (rank = floor ∨ denominator * unitsOfRank floor < numerator ∧ rank = floor + 1) := by
  have before := Nat.mul_le_mul_left denominator
    (unitsOfRank_strictMono.monotone (Nat.sub_le floor 1))
  have after := Nat.mul_lt_mul_of_pos_left (unitsOfRank_strictMono (Nat.lt_add_one (floor + 1)))
    positive
  by_cases nearer : 2 * numerator < denominator * (unitsOfRank floor + unitsOfRank (floor + 1)) ∨
      2 * numerator = denominator * (unitsOfRank floor + unitsOfRank (floor + 1)) ∧ floor % 2 = 0
  · refine ⟨floor, ⟨?_, ?_, ?_⟩, .inl rfl⟩
    · rw [Nat.mul_add] at *
      omega
    · omega
    · rintro (below | above)
      · -- Only the lowest rank is its own predecessor.
        rw [Nat.mul_add] at below
        have same : unitsOfRank (floor - 1) = unitsOfRank floor :=
          Nat.eq_of_mul_eq_mul_left positive (by omega)
        have := unitsOfRank_strictMono.injective same
        omega
      · omega
  · have strict : denominator * unitsOfRank floor < numerator := by
      rw [Nat.mul_add] at nearer
      omega
    refine ⟨floor + 1, ⟨?_, ?_, ?_⟩, .inr ⟨strict, rfl⟩⟩
    · rw [Nat.add_sub_cancel]
      omega
    · rw [Nat.mul_add]
      omega
    · rw [Nat.add_sub_cancel, Nat.mul_add denominator (unitsOfRank (floor + 1))]
      rintro (below | above) <;> omega

theorem roundsTo_nearestRank (numerator : Nat) {denominator : Nat} (positive : 0 < denominator) :
    RoundsTo numerator denominator (nearestRank numerator denominator) := by
  obtain ⟨floor, atLeast, less⟩ := exists_floorRank numerator positive
  obtain ⟨rank, rounds, -⟩ := exists_roundsTo positive atLeast less
  rwa [rounds.nearestRank_eq positive]

theorem le_nearestRank {numerator denominator rank : Nat} (positive : 0 < denominator)
    (lower : denominator * unitsOfRank rank ≤ numerator) :
    rank ≤ nearestRank numerator denominator := by
  obtain ⟨floor, atLeast, less⟩ := exists_floorRank numerator positive
  have below : rank < floor + 1 := unitsOfRank_strictMono.lt_iff_lt.mp
    (Nat.lt_of_mul_lt_mul_left (Nat.lt_of_le_of_lt lower less))
  obtain ⟨rounded, rounds, near⟩ := exists_roundsTo positive atLeast less
  rw [rounds.nearestRank_eq positive]
  omega

theorem nearestRank_le {numerator denominator rank : Nat} (positive : 0 < denominator)
    (upper : numerator ≤ denominator * unitsOfRank rank) :
    nearestRank numerator denominator ≤ rank := by
  obtain ⟨floor, atLeast, less⟩ := exists_floorRank numerator positive
  obtain ⟨rounded, rounds, near⟩ := exists_roundsTo positive atLeast less
  rw [rounds.nearestRank_eq positive]
  rcases near with floored | ⟨strict, raised⟩
  · have above : floor ≤ rank := unitsOfRank_strictMono.le_iff_le.mp
      (Nat.le_of_mul_le_mul_left (Nat.le_trans atLeast upper) positive)
    omega
  · have above : floor < rank := unitsOfRank_strictMono.lt_iff_lt.mp
      (Nat.lt_of_mul_lt_mul_left (Nat.lt_of_lt_of_le strict upper))
    omega

/-- Rounding keeps the order of fractions: two could only be exchanged at a midpoint, which goes to
the even rank in both. -/
theorem nearestRank_mono {first second denominator : Nat} (positive : 0 < denominator)
    (ordered : first ≤ second) :
    nearestRank first denominator ≤ nearestRank second denominator := by
  obtain ⟨lower, -, tieBelow⟩ := roundsTo_nearestRank first positive
  obtain ⟨-, upper, tieAbove⟩ := roundsTo_nearestRank second positive
  generalize nearestRank first denominator = low at *
  generalize nearestRank second denominator = high at *
  refine Nat.le_of_not_lt fun less => ?_
  have before : unitsOfRank high ≤ unitsOfRank (low - 1) :=
    unitsOfRank_strictMono.monotone (Nat.le_sub_one_of_lt less)
  have after : unitsOfRank (high + 1) ≤ unitsOfRank low := unitsOfRank_strictMono.monotone less
  have ends := Nat.mul_le_mul_left denominator (Nat.add_le_add before after)
  have together : unitsOfRank high + unitsOfRank (high + 1) =
      unitsOfRank (low - 1) + unitsOfRank low :=
    Nat.eq_of_mul_eq_mul_left positive (by omega)
  have successive : high + 1 = low := unitsOfRank_strictMono.injective (by omega)
  have even := tieBelow (.inl (by omega))
  have odd := tieAbove (.inr (by omega))
  omega

theorem nearest_rank (numerator denominator : Nat) :
    (nearest numerator denominator).rank = min (nearestRank numerator denominator) infinityRank :=
  rfl

variable {m : Magnitude} {numerator denominator : Nat}

theorem le_nearest (positive : 0 < denominator) (lower : denominator * m.units ≤ numerator) :
    m.rank ≤ (nearest numerator denominator).rank :=
  Nat.le_min.mpr ⟨le_nearestRank positive lower, m.rank_le⟩

theorem nearest_le (positive : 0 < denominator) (upper : numerator ≤ denominator * m.units) :
    (nearest numerator denominator).rank ≤ m.rank :=
  Nat.le_trans (Nat.min_le_left ..) (nearestRank_le positive upper)

@[ext] theorem ext_rank {first second : Magnitude} (same : first.rank = second.rank) :
    first = second := by
  cases first
  cases second
  cases same
  rfl

theorem rank_pos (nonzero : m ≠ .zero) : 0 < m.rank :=
  Nat.pos_of_ne_zero fun none => nonzero (ext_rank none)

theorem zero_or_infinity_or_between (m : Magnitude) :
    m = .zero ∨ m = .infinity ∨ 0 < m.rank ∧ m.rank < infinityRank := by
  rcases Nat.eq_zero_or_pos m.rank with none | positive
  · exact .inl (ext_rank none)
  · rcases Nat.eq_or_lt_of_le m.rank_le with last | less
    · exact .inr (.inl (ext_rank last))
    · exact .inr (.inr ⟨positive, less⟩)

/-- A value of the chain is rounded to itself. -/
theorem nearest_units (m : Magnitude) (positive : 0 < denominator) :
    nearest (denominator * m.units) denominator = m :=
  ext_rank (Nat.le_antisymm (nearest_le positive (Nat.le_refl _))
    (le_nearest positive (Nat.le_refl _)))

/-- A common factor of numerator and denominator does not change how they are rounded. -/
theorem nearest_mul_right {factor : Nat} (positive : 0 < factor) (numerator denominator : Nat) :
    nearest (numerator * factor) (denominator * factor) = nearest numerator denominator := by
  have scaled (scale : Nat) : denominator * factor * 2 ^ scale = denominator * 2 ^ scale * factor :=
    Nat.mul_right_comm ..
  apply ext_rank
  rw [nearest_rank, nearest_rank, nearestRank, nearestRank, Nat.mul_div_mul_right _ _ positive,
    scaled, roundHalfEven_mul_right positive]

/-! ## Exact values -/

/-- A finite magnitude has just this many units. -/
def IsExact (units : Nat) : Prop :=
  ∃ m : Magnitude, m.rank < infinityRank ∧ m.units = units

theorem unitsOfRank_significand {scale significand : Nat} (bounded : significand < 2 ^ 53)
    (normal : scale = 0 ∨ 2 ^ 52 ≤ significand) :
    unitsOfRank (scale * 2 ^ 52 + significand) = significand * 2 ^ scale := by
  have block : scaleOfRank (scale * 2 ^ 52 + significand) = scale := by
    unfold scaleOfRank
    omega
  rw [unitsOfRank_eq, block]
  unfold significandOfRank
  rw [block, Nat.add_sub_cancel_left]

theorem unitsPerOne_eq : unitsPerOne = 2 ^ 1074 := by
  decide +kernel

/-- The ranks of the powers of two from one on. -/
theorem unitsOfRank_two_pow (exponent : Nat) :
    unitsOfRank ((1023 + exponent) * 2 ^ 52) = 2 ^ exponent * unitsPerOne := by
  have place : (1023 + exponent) * 2 ^ 52 = (1022 + exponent) * 2 ^ 52 + 2 ^ 52 := by ring
  have power : 52 + (1022 + exponent) = exponent + 1074 := by omega
  rw [place, unitsOfRank_significand (by decide) (.inr (le_refl _)), unitsPerOne_eq, ← pow_add,
    ← pow_add, power]

theorem unitsOfRank_infinityRank : unitsOfRank infinityRank = 2 ^ 2098 :=
  (unitsOfRank_two_pow 1024).trans (by rw [unitsPerOne_eq, ← pow_add])

theorem IsExact.of_rank {rank units : Nat} (value : unitsOfRank rank = units)
    (finite : units < 2 ^ 2098) : IsExact units := by
  have below : rank < infinityRank := by
    rw [← unitsOfRank_strictMono.lt_iff_lt, unitsOfRank_infinityRank, value]
    exact finite
  exact ⟨⟨rank, below.le⟩, below, value⟩

/-- What 53 bits hold up to a power of two is exact, below the bound that overflows. -/
theorem IsExact.of_significand {significand : Nat} (bounded : significand < 2 ^ 53) (scale : Nat)
    (finite : significand * 2 ^ scale < 2 ^ 2098) : IsExact (significand * 2 ^ scale) := by
  induction scale generalizing significand with
  | zero => exact .of_rank (unitsOfRank_significand bounded (.inl rfl)) finite
  | succ scale ih =>
    by_cases normal : 2 ^ 52 ≤ significand
    · exact .of_rank (unitsOfRank_significand bounded (.inr normal)) finite
    · -- A leading zero bit is traded for one of the scale.
      have shifted : significand * 2 ^ (scale + 1) = 2 * significand * 2 ^ scale := by ring
      rw [shifted] at finite ⊢
      exact ih (by omega) finite

theorem isExact_iff {units : Nat} : IsExact units ↔
    units < 2 ^ 2098 ∧ ∃ significand scale, significand < 2 ^ 53 ∧
      units = significand * 2 ^ scale := by
  constructor
  · rintro ⟨m, finite, rfl⟩
    refine ⟨?_, _, _, significandOfRank_lt m.rank, unitsOfRank_eq m.rank⟩
    rw [← unitsOfRank_infinityRank]
    exact unitsOfRank_strictMono finite
  · rintro ⟨finite, significand, scale, bounded, rfl⟩
    exact .of_significand bounded scale finite

theorem IsExact.lt {units : Nat} (exact : IsExact units) : units < 2 ^ 2098 :=
  (isExact_iff.mp exact).1

/-- What is at most an exact value is rounded to one, and to no greater one. -/
theorem IsExact.nearest_le {units : Nat} (exact : IsExact units) (positive : 0 < denominator)
    (upper : numerator ≤ denominator * units) :
    IsExact (nearest numerator denominator).units ∧
      (nearest numerator denominator).units ≤ units := by
  obtain ⟨m, finite, rfl⟩ := exact
  have rank := Magnitude.nearest_le positive upper
  exact ⟨⟨_, rank.trans_lt finite, rfl⟩, unitsOfRank_strictMono.monotone rank⟩

theorem IsExact.le_nearest {units : Nat} (exact : IsExact units) (positive : 0 < denominator)
    (lower : denominator * units ≤ numerator) : units ≤ (nearest numerator denominator).units := by
  obtain ⟨m, -, rfl⟩ := exact
  exact unitsOfRank_strictMono.monotone (Magnitude.le_nearest positive lower)

theorem nearest_units_mono {first second : Nat} (positive : 0 < denominator)
    (ordered : first ≤ second) :
    (nearest first denominator).units ≤ (nearest second denominator).units :=
  unitsOfRank_strictMono.monotone (min_le_min_right _ (nearestRank_mono positive ordered))

theorem IsExact.of_lt {units : Nat} (small : units < 2 ^ 53) : IsExact units :=
  isExact_iff.mpr ⟨small.trans (pow_lt_pow_right₀ one_lt_two (by decide)), units, 0, small,
    by rw [pow_zero, Nat.mul_one]⟩

theorem IsExact.two_pow {exponent : Nat} (finite : 2 ^ exponent < 2 ^ 2098) :
    IsExact (2 ^ exponent) :=
  isExact_iff.mpr ⟨finite, 1, exponent, by decide, (Nat.one_mul _).symm⟩

/-- A multiple of a power of two, and fewer than `2^53` of it. -/
theorem IsExact.of_dvd {grid units : Nat} (aligned : 2 ^ grid ∣ units)
    (small : units < 2 ^ (53 + grid)) (finite : units < 2 ^ 2098) : IsExact units := by
  obtain ⟨count, rfl⟩ := aligned
  rw [Nat.pow_add, Nat.mul_comm, Nat.mul_lt_mul_right (Nat.two_pow_pos grid)] at small
  rw [Nat.mul_comm] at finite ⊢
  exact .of_significand small grid finite

/-- Whole numbers of 64 bits are far below the bound that overflows. -/
theorem mul_unitsPerOne_lt {n : Nat} (small : n ≤ 2 ^ 64) : n * unitsPerOne < 2 ^ 2098 := by
  calc n * unitsPerOne ≤ 2 ^ 64 * unitsPerOne := Nat.mul_le_mul_right unitsPerOne small
    _ = 2 ^ (64 + 1074) := by rw [unitsPerOne_eq, ← pow_add]
    _ < 2 ^ 2098 := pow_lt_pow_right₀ one_lt_two (by decide)

/-- Whole numbers are exact up to the end of the range in which they follow on each other. -/
theorem IsExact.ones {n : Nat} (small : n ≤ 2 ^ 53) : IsExact (n * unitsPerOne) := by
  have finite : n * unitsPerOne < 2 ^ 2098 := mul_unitsPerOne_lt (small.trans (by decide))
  rcases Nat.lt_or_eq_of_le small with less | rfl
  · exact isExact_iff.mpr ⟨finite, n, 1074, less, congrArg (n * ·) unitsPerOne_eq⟩
  · exact isExact_iff.mpr ⟨finite, 1, 1127, by decide, by rw [unitsPerOne_eq, ← pow_add, Nat.one_mul]⟩

theorem IsExact.one : IsExact unitsPerOne := by
  have exact := IsExact.ones Nat.one_le_two_pow
  rwa [Nat.one_mul] at exact

/-- Powers of ten are exact as long as 53 bits hold their odd part. -/
theorem IsExact.ten_pow {power : Nat} (small : power ≤ 22) :
    IsExact (10 ^ power * unitsPerOne) := by
  have fives : 5 ^ power < 2 ^ 53 :=
    (Nat.pow_le_pow_right (by decide) small).trans_lt (by decide)
  have shifted : 10 ^ power * unitsPerOne = 5 ^ power * 2 ^ (power + 1074) := by
    rw [unitsPerOne_eq, Nat.pow_add, ← Nat.mul_assoc, ← Nat.mul_pow]
  rw [shifted]
  have range := pow_le_pow_right₀ (show 1 ≤ 2 by decide) (show 53 + (power + 1074) ≤ 2098 by omega)
  rw [pow_add] at range
  apply IsExact.of_significand fives
  exact (Nat.mul_lt_mul_of_pos_right fives (Nat.two_pow_pos _)).trans_le range

variable {units : Nat}

theorem IsExact.mul_two_pow (exact : IsExact units) (shift : Nat)
    (finite : units * 2 ^ shift < 2 ^ 2098) : IsExact (units * 2 ^ shift) := by
  obtain ⟨-, significand, scale, bounded, rfl⟩ := isExact_iff.mp exact
  rw [Nat.mul_assoc, ← Nat.pow_add] at finite ⊢
  exact .of_significand bounded (scale + shift) finite

theorem IsExact.div_two_pow (exact : IsExact units) (shift : Nat) :
    IsExact (units / 2 ^ shift) := by
  obtain ⟨finite, significand, scale, bounded, rfl⟩ := isExact_iff.mp exact
  have smaller := (Nat.div_le_self (significand * 2 ^ scale) (2 ^ shift)).trans_lt finite
  rcases Nat.le_total shift scale with within | beyond
  · obtain ⟨rest, rfl⟩ := Nat.exists_eq_add_of_le' within
    rw [Nat.pow_add, ← Nat.mul_assoc, Nat.mul_div_cancel _ (Nat.two_pow_pos shift)] at smaller ⊢
    exact .of_significand bounded rest smaller
  · obtain ⟨rest, rfl⟩ := Nat.exists_eq_add_of_le' beyond
    rw [Nat.pow_add, Nat.mul_div_mul_right _ _ (Nat.two_pow_pos scale)]
    exact .of_lt ((Nat.div_le_self ..).trans_lt bounded)

theorem IsExact.floor (exact : IsExact units) : IsExact (units / unitsPerOne * unitsPerOne) := by
  rw [unitsPerOne_eq]
  exact (exact.div_two_pow 1074).mul_two_pow 1074 ((Nat.div_mul_le_self ..).trans_lt exact.lt)

/-- The bits of an exact value end at most 53 places below its first one. -/
theorem IsExact.two_pow_dvd (exact : IsExact units) {bits : Nat}
    (large : 2 ^ 53 * 2 ^ bits ≤ units) : 2 ^ bits ∣ units := by
  obtain ⟨-, significand, scale, bounded, rfl⟩ := isExact_iff.mp exact
  have within : bits ≤ scale := by
    refine Nat.le_of_not_lt fun beyond => ?_
    have smaller : significand * 2 ^ scale < 2 ^ 53 * 2 ^ bits :=
      Nat.mul_lt_mul_of_lt_of_le bounded (Nat.pow_le_pow_right Nat.two_pos beyond.le)
        (Nat.two_pow_pos bits)
    omega
  exact (Nat.pow_dvd_pow 2 within).mul_left significand

/-- From `2^53` on there are no fractions. -/
theorem IsExact.unitsPerOne_dvd (exact : IsExact units) (large : 2 ^ 53 * unitsPerOne ≤ units) :
    unitsPerOne ∣ units := by
  rw [unitsPerOne_eq] at large ⊢
  exact exact.two_pow_dvd large

/-- The lowest bits of an exact value are exact, however far the value is shifted first. -/
theorem IsExact.mul_mod_two_pow (exact : IsExact units) (shift : Nat) {bits : Nat}
    (finite : bits ≤ 2098) : IsExact (units * 2 ^ shift % 2 ^ bits) := by
  obtain ⟨-, significand, scale, bounded, rfl⟩ := isExact_iff.mp exact
  have small : significand * 2 ^ scale * 2 ^ shift % 2 ^ bits < 2 ^ 2098 :=
    (Nat.mod_lt _ (Nat.two_pow_pos bits)).trans_le (pow_le_pow_right₀ one_le_two finite)
  rw [Nat.mul_assoc, ← Nat.pow_add] at small ⊢
  rcases Nat.le_total bits (scale + shift) with within | beyond
  · rw [Nat.mod_eq_zero_of_dvd ((Nat.pow_dvd_pow 2 within).mul_left significand)]
    exact .of_lt (Nat.two_pow_pos 53)
  · obtain ⟨rest, rfl⟩ := Nat.exists_eq_add_of_le' beyond
    rw [Nat.pow_add 2 rest, Nat.mul_mod_mul_right] at small ⊢
    exact .of_significand ((Nat.mod_le ..).trans_lt bounded) _ small

/-- A remainder has no finer bits than both operands, and is not greater than either of them. -/
theorem IsExact.mod {divisor : Nat} (first : IsExact units) (second : IsExact divisor) :
    IsExact (units % divisor) := by
  have finite := (Nat.mod_le units divisor).trans_lt first.lt
  obtain ⟨-, significand, scale, bounded, rfl⟩ := isExact_iff.mp first
  obtain ⟨-, factor, grid, small, rfl⟩ := isExact_iff.mp second
  rcases Nat.le_total scale grid with fine | coarse
  · have aligned : 2 ^ scale ∣ significand * 2 ^ scale % (factor * 2 ^ grid) :=
      (Nat.dvd_mod_iff ((Nat.pow_dvd_pow 2 fine).mul_left _)).mpr (Nat.dvd_mul_left ..)
    refine .of_dvd aligned ((Nat.mod_le ..).trans_lt ?_) finite
    rw [Nat.pow_add]
    exact Nat.mul_lt_mul_of_pos_right bounded (Nat.two_pow_pos scale)
  · rcases Nat.eq_zero_or_pos factor with rfl | some
    · rwa [Nat.zero_mul, Nat.mod_zero]
    · have aligned : 2 ^ grid ∣ significand * 2 ^ scale % (factor * 2 ^ grid) :=
        (Nat.dvd_mod_iff (Nat.dvd_mul_left ..)).mpr ((Nat.pow_dvd_pow 2 coarse).mul_left _)
      have proper := Nat.mod_lt (significand * 2 ^ scale) (Nat.mul_pos some (Nat.two_pow_pos grid))
      refine .of_dvd aligned (proper.trans ?_) finite
      rw [Nat.pow_add]
      exact Nat.mul_lt_mul_of_pos_right small (Nat.two_pow_pos grid)

theorem IsExact.fraction (exact : IsExact units) : IsExact (units % unitsPerOne) :=
  exact.mod .one

/-- The greatest exact value below one. -/
theorem IsExact.le_of_lt_one (exact : IsExact units) (less : units < unitsPerOne) :
    units ≤ unitsOfRank 0x3fefffffffffffff := by
  have one := unitsOfRank_two_pow 0
  generalize unitsPerOne = unit at *
  rw [pow_zero, Nat.one_mul] at one
  obtain ⟨m, -, rfl⟩ := exact
  rw [← one] at less
  exact unitsOfRank_strictMono.monotone
    (Nat.le_of_lt_succ (unitsOfRank_strictMono.lt_iff_lt.mp less))

/-! ## Exact values and what is attracted -/

/-- What a magnitude attracts lies on the same side of every exact value as the magnitude. -/
theorem Attracts.lt_of_units_lt {units : ℚ} (attracted : m.Attracts units) {bound : ℕ}
    (exact : IsExact bound) (less : m.units < bound) : units < bound := by
  obtain ⟨other, -, rfl⟩ := exact
  have rank : m.rank < other.rank := unitsOfRank_strictMono.lt_iff_lt.mp less
  have next : (unitsOfRank (m.rank + 1) : ℚ) ≤ other.units :=
    Nat.cast_le.mpr (unitsOfRank_strictMono.monotone rank)
  have before : (m.units : ℚ) < other.units := Nat.cast_lt.mpr less
  have upper := attracted.upper
  rw [upperEnd] at upper
  linarith

theorem Attracts.lt_of_lt_units {units : ℚ} (attracted : m.Attracts units) {bound : ℕ}
    (exact : IsExact bound) (less : bound < m.units) : bound < units := by
  obtain ⟨other, -, rfl⟩ := exact
  have rank : other.rank < m.rank := unitsOfRank_strictMono.lt_iff_lt.mp less
  have before : (other.units : ℚ) ≤ unitsOfRank (m.rank - 1) :=
    Nat.cast_le.mpr (unitsOfRank_strictMono.monotone (Nat.le_sub_one_of_lt rank))
  have after : (other.units : ℚ) < m.units := Nat.cast_lt.mpr less
  have lower := attracted.lower
  rw [lowerEnd] at lower
  linarith

theorem Attracts.units_eq {value : ℕ} (attracted : m.Attracts value) (exact : IsExact value) :
    m.units = value := by
  rcases Nat.lt_trichotomy m.units value with less | same | greater
  · exact absurd (attracted.lt_of_units_lt exact less) (lt_irrefl _)
  · exact same
  · exact absurd (attracted.lt_of_lt_units exact greater) (lt_irrefl _)

section Whole

variable {n k : ℕ} (value : m.units = n * unitsPerOne)
  (attracted : m.Attracts (k * unitsPerOne : ℕ))
include value attracted

theorem Attracts.lt_of_whole_lt {bound : ℕ} (exact : IsExact (bound * unitsPerOne))
    (less : n < bound) : k < bound := by
  have units := attracted.lt_of_units_lt exact (by
    rw [value]
    exact Nat.mul_lt_mul_of_pos_right less unitsPerOne_pos)
  exact (Nat.mul_lt_mul_right unitsPerOne_pos).mp (Nat.cast_lt.mp units)

theorem Attracts.lt_of_lt_whole {bound : ℕ} (exact : IsExact (bound * unitsPerOne))
    (less : bound < n) : bound < k := by
  have units := attracted.lt_of_lt_units exact (by
    rw [value]
    exact Nat.mul_lt_mul_of_pos_right less unitsPerOne_pos)
  exact (Nat.mul_lt_mul_right unitsPerOne_pos).mp (Nat.cast_lt.mp units)

end Whole

end Magnitude

end ScriptCore
