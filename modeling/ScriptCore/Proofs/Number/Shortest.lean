import Mathlib.Algebra.Order.Field.Power
import ScriptCore.Number.Shortest
import ScriptCore.Proofs.Number.Rounding

/-! # Shortest decimals

The shortest decimal of a magnitude is a number that the magnitude attracts. A point found on a grid
lies within the room that was tested, and on the grid of the seventeenth digit there is always one:
its step is less than the distance between the two neighbours of the magnitude.
-/

namespace ScriptCore

/-- A fraction below the decimal logarithm of two turns powers of two into powers of ten. -/
theorem ten_pow_le_two_pow {above below : Nat} (positive : 0 < below)
    (bound : 10 ^ above ≤ 2 ^ below) (bits : Nat) : 10 ^ (bits * above / below) ≤ 2 ^ bits := by
  rw [← Nat.pow_le_pow_iff_left positive.ne', ← Nat.pow_mul, ← Nat.pow_mul]
  calc 10 ^ (bits * above / below * below)
      ≤ 10 ^ (above * bits) := by
        apply Nat.pow_le_pow_right (by decide)
        rw [Nat.mul_comm above]
        exact Nat.div_mul_le_self ..
    _ = (10 ^ above) ^ bits := Nat.pow_mul ..
    _ ≤ (2 ^ below) ^ bits := Nat.pow_le_pow_left bound bits
    _ = 2 ^ (bits * below) := by rw [← Nat.pow_mul, Nat.mul_comm]

theorem ten_pow_log10_le {n : Nat} (positive : 0 < n) : 10 ^ log10 n ≤ n := by
  unfold log10
  dsimp only
  split
  · assumption
  · exact Nat.le_trans (ten_pow_le_two_pow (by decide) (by decide +kernel) n.log2)
      (Nat.log2_self_le positive.ne')

/-- The two powers that are formed for an exponent give its power in the rationals. -/
theorem zpow_eq_pow_div_pow (base : ℚ) (exponent : Int) :
    base ^ exponent = base ^ exponent.toNat / base ^ (-exponent).toNat := by
  rcases le_total 0 exponent with up | down
  · rw [Int.toNat_eq_zero.mpr (Int.neg_nonpos_of_nonneg up), pow_zero, div_one, ← zpow_natCast,
      Int.toNat_of_nonneg up]
  · rw [Int.toNat_eq_zero.mpr down, pow_zero, one_div, ← zpow_natCast,
      Int.toNat_of_nonneg (Int.neg_nonneg_of_nonpos down), zpow_neg, inv_inv]

namespace Decimal

/-- The number that a decimal denotes. -/
def value (d : Decimal) : ℚ := d.coefficient * 10 ^ d.exponent

theorem stripZeros_value (fuel : Nat) (d : Decimal) : (d.stripZeros fuel).value = d.value := by
  induction fuel generalizing d with
  | zero => rfl
  | succ fuel ih =>
    rw [stripZeros]
    split
    · next trailing =>
      rw [ih]
      have whole : (d.coefficient : ℚ) = 10 * (d.coefficient / 10 : Nat) := by
        norm_cast
        omega
      rw [value, value, zpow_add_one₀ (by norm_num), whole]
      ring
    · rfl

end Decimal

namespace Magnitude

variable {m : Magnitude}

theorem reaches_iff {distance room : Nat} :
    m.reaches distance room = true ↔ distance ≤ room ∧ (distance = room → m.rank % 2 = 0) := by
  unfold reaches
  split
  · simp_all
  · simp_all only [decide_eq_true_eq, imp_false]
    exact Nat.lt_iff_le_and_ne

theorem reaches_of_lt {distance room : Nat} (less : distance < room) :
    m.reaches distance room = true :=
  reaches_iff.mpr ⟨less.le, fun equal => absurd equal less.ne⟩

theorem half_le_of_reaches {distance room scale : Nat} (positive : 0 < scale)
    (reaches : m.reaches distance (room * scale) = true) :
    (distance : ℚ) / (2 * scale) ≤ room / 2 ∧
      ((distance : ℚ) / (2 * scale) = room / 2 → m.rank % 2 = 0) := by
  obtain ⟨atMost, tie⟩ := reaches_iff.mp reaches
  have divides : (0 : ℚ) < scale := Nat.cast_pos.mpr positive
  have cancel : (room : ℚ) / 2 = (room * scale : Nat) / (2 * scale) := by
    push_cast
    field_simp
  rw [cancel]
  constructor
  · gcongr
  · intro equal
    apply tie
    field_simp at equal
    exact_mod_cast equal

theorem units_lt_succ (m : Magnitude) : m.units < unitsOfRank (m.rank + 1) :=
  unitsOfRank_strictMono (Nat.lt_succ_self m.rank)

theorem pred_le_units (m : Magnitude) : unitsOfRank (m.rank - 1) ≤ m.units :=
  unitsOfRank_strictMono.monotone (Nat.sub_le ..)

theorem pred_lt_units (positive : 0 < m.rank) : unitsOfRank (m.rank - 1) < m.units :=
  unitsOfRank_strictMono (Nat.sub_lt positive Nat.one_pos)

theorem Attracts.of_rooms {units : ℚ} (below : m.units - units ≤ m.roomBelow / 2)
    (above : units - m.units ≤ m.roomAbove / 2)
    (tie : m.units - units = m.roomBelow / 2 ∨ units - m.units = m.roomAbove / 2 →
      m.rank % 2 = 0) : m.Attracts units := by
  rw [roomBelow, Nat.cast_sub m.pred_le_units] at below tie
  rw [roomAbove, Nat.cast_sub m.units_lt_succ.le] at above tie
  constructor
  · unfold lowerEnd
    linarith
  · unfold upperEnd
    linarith
  · unfold lowerEnd upperEnd
    rintro (atLower | atUpper)
    · exact tie (.inl (by linarith))
    · exact tie (.inr (by linarith))

theorem attracts_units (m : Magnitude) : m.Attracts m.units := by
  have below : (0 : ℚ) ≤ m.roomBelow / 2 := by positivity
  have above : (0 : ℚ) < m.roomAbove / 2 :=
    half_pos (Nat.cast_pos.mpr (Nat.sub_pos_of_lt m.units_lt_succ))
  rw [← sub_self (m.units : ℚ)] at below above
  refine .of_rooms below above.le ?_
  rintro (atLower | atUpper)
  · -- Without room below, this is zero.
    have none : m.roomBelow = 0 := by
      rw [sub_self, eq_comm, div_eq_zero_iff] at atLower
      exact_mod_cast atLower.resolve_right two_ne_zero
    have lowest : ¬ 0 < m.rank := fun positive =>
      (Nat.sub_pos_of_lt (pred_lt_units positive)).ne' none
    omega
  · exact absurd atUpper above.ne

theorem attracts_below {distance scale : Nat} (positive : 0 < scale)
    (reaches : m.reaches distance (m.roomBelow * scale) = true) :
    m.Attracts (m.units - distance / (2 * scale)) := by
  obtain ⟨atMost, tie⟩ := half_le_of_reaches positive reaches
  have nonnegative : (0 : ℚ) ≤ distance / (2 * scale) := by positivity
  have above : (0 : ℚ) < m.roomAbove := Nat.cast_pos.mpr (Nat.sub_pos_of_lt m.units_lt_succ)
  apply Attracts.of_rooms
  · linarith
  · linarith
  · rintro (atLower | atUpper)
    · exact tie (by linarith)
    · linarith

theorem attracts_above (nonzero : 0 < m.rank) {distance scale : Nat} (positive : 0 < scale)
    (reaches : m.reaches distance (m.roomAbove * scale) = true) :
    m.Attracts (m.units + distance / (2 * scale)) := by
  obtain ⟨atMost, tie⟩ := half_le_of_reaches positive reaches
  have nonnegative : (0 : ℚ) ≤ distance / (2 * scale) := by positivity
  have below : (0 : ℚ) < m.roomBelow := Nat.cast_pos.mpr (Nat.sub_pos_of_lt (pred_lt_units nonzero))
  apply Attracts.of_rooms
  · linarith
  · linarith
  · rintro (atLower | atUpper)
    · linarith
    · exact tie (by linarith)

theorem unitsPerOne_pos : 0 < unitsPerOne := by
  unfold unitsPerOne
  positivity

theorem halfUnitsPerOne_pos : 0 < halfUnitsPerOne := Nat.mul_pos Nat.two_pos unitsPerOne_pos

/-- A grid point in units, by the whole numbers that the search compares. -/
theorem gridPoint_eq (count : Nat) (exponent : Int) :
    Decimal.value ⟨count, exponent⟩ * unitsPerOne =
      (count * (halfUnitsPerOne * 10 ^ exponent.toNat) : Nat) /
        (2 * (10 ^ (-exponent).toNat : Nat)) := by
  rw [Decimal.value, zpow_eq_pow_div_pow, halfUnitsPerOne]
  generalize unitsPerOne = unit
  push_cast
  field_simp

/-- A decimal that the search finds reads back. -/
theorem onGrid?_attracts (nonzero : 0 < m.rank) {tie : Tie} {exponent : Int} {d : Decimal}
    (found : m.onGrid? tie exponent = some d) : m.Attracts (d.value * unitsPerOne) := by
  have upPositive : 0 < 10 ^ (-exponent).toNat := Nat.pow_pos (by decide)
  have stepPositive : 0 < halfUnitsPerOne * 10 ^ exponent.toNat :=
    Nat.mul_pos halfUnitsPerOne_pos (Nat.pow_pos (by decide))
  have point := fun count => gridPoint_eq count exponent
  have divides : (0 : ℚ) < (10 ^ (-exponent).toNat : Nat) := Nat.cast_pos.mpr upPositive
  unfold onGrid? at found
  dsimp only at found
  generalize 10 ^ (-exponent).toNat = up at *
  generalize halfUnitsPerOne * 10 ^ exponent.toNat = step at *
  have parts := Nat.div_add_mod' (2 * m.units * up) step
  have short := Nat.mod_lt (2 * m.units * up) stepPositive
  generalize 2 * m.units * up / step = below at *
  generalize 2 * m.units * up % step = rest at *
  generalize (if 2 * rest = step then _ else _) = nearer at found
  have whole : (below * step : ℚ) + rest = 2 * m.units * up := by exact_mod_cast parts
  split at found
  · next above =>
    simp only [Bool.and_eq_true] at above
    obtain rfl := Option.some.inj found
    have attracted := attracts_above nonzero upPositive above.1
    rw [Nat.cast_sub short.le] at attracted
    convert attracted using 1
    rw [point]
    push_cast
    field_simp
    linarith
  · split at found
    · next reads =>
      obtain rfl := Option.some.inj found
      have attracted := attracts_below upPositive reads
      convert attracted using 1
      rw [point]
      push_cast
      field_simp
      linarith
    · cases found

/-- On a grid finer than the distance between the two neighbours a point reads back. -/
theorem onGrid?_isSome (tie : Tie) {exponent : Int}
    (fine : halfUnitsPerOne * 10 ^ exponent.toNat <
      (m.roomBelow + m.roomAbove) * 10 ^ (-exponent).toNat) :
    (m.onGrid? tie exponent).isSome := by
  have stepPositive : 0 < halfUnitsPerOne * 10 ^ exponent.toNat :=
    Nat.mul_pos halfUnitsPerOne_pos (Nat.pow_pos (by decide))
  unfold onGrid?
  dsimp only
  generalize 10 ^ (-exponent).toNat = up at *
  generalize halfUnitsPerOne * 10 ^ exponent.toNat = step at *
  have short := Nat.mod_lt (2 * m.units * up) stepPositive
  generalize 2 * m.units * up % step = rest at *
  generalize (if 2 * rest = step then _ else _) = nearer
  rw [Nat.add_mul] at fine
  have either : m.reaches rest (m.roomBelow * up) = true ∨
      m.reaches (step - rest) (m.roomAbove * up) = true := by
    by_cases below : rest < m.roomBelow * up
    · exact .inl (reaches_of_lt below)
    · exact .inr (reaches_of_lt (by omega))
  generalize m.reaches rest (m.roomBelow * up) = belowReads at *
  generalize m.reaches (step - rest) (m.roomAbove * up) = aboveReads at *
  cases belowReads <;> cases aboveReads <;> cases nearer <;> simp at either ⊢

section

-- The shift is a power as the logarithm of a magnitude has it.
attribute [local instance (2000)] instPowNat

/-- The logarithm of a quotient is taken after a shift that makes it at least one. -/
theorem ten_zpow_log10_mul_le (shift : Nat) {n divisor : Nat} (nonzero : 0 < n)
    (positive : 0 < divisor) (enough : divisor ≤ 10 ^ shift) :
    (10 : ℚ) ^ ((log10 (n * 10 ^ shift / divisor) : Int) - shift) * divisor ≤ n := by
  have quotient : 0 < n * 10 ^ shift / divisor :=
    Nat.div_pos (enough.trans (Nat.le_mul_of_pos_left _ nonzero)) positive
  have scaled := Nat.mul_le_mul_right divisor (ten_pow_log10_le quotient)
  have bound := scaled.trans (Nat.div_mul_le_self ..)
  rw [zpow_sub₀ (by decide), zpow_natCast, zpow_natCast, div_mul_eq_mul_div,
    div_le_iff₀ (by positivity)]
  exact_mod_cast bound

theorem leadingPower_le (nonzero : 0 < m.units) :
    (10 : ℚ) ^ m.leadingPower * unitsPerOne ≤ m.units :=
  ten_zpow_log10_mul_le 324 nonzero unitsPerOne_pos (by decide +kernel)

end

/-- Seventeen digits tell a magnitude from both neighbours, at the beginning of a block too. -/
theorem two_mul_units_lt (nonzero : 0 < m.rank) :
    2 * m.units < 10 ^ 16 * (m.roomBelow + m.roomAbove) := by
  have whole := rank_eq m.rank
  have bounded := significandOfRank_lt m.rank
  have gapAbove := unitsOfRank_succ m.rank
  unfold roomBelow roomAbove units
  by_cases same : scaleOfRank (m.rank - 1) = scaleOfRank m.rank
  · have value : unitsOfRank m.rank ≤ (2 ^ 53 - 1) * 2 ^ scaleOfRank m.rank :=
      Nat.mul_le_mul_right _ (Nat.le_pred_of_lt bounded)
    have positive := Nat.two_pow_pos (scaleOfRank m.rank)
    have gapBelow := unitsOfRank_succ (m.rank - 1)
    rw [same, Nat.sub_add_cancel nonzero] at gapBelow
    omega
  · obtain ⟨scale, scaled⟩ : ∃ scale, scaleOfRank m.rank = scale + 1 :=
      Nat.exists_eq_add_one_of_ne_zero (by unfold scaleOfRank at *; omega)
    have first : significandOfRank m.rank = 2 ^ 52 := by
      unfold significandOfRank scaleOfRank at *
      omega
    have gapBelow := unitsOfRank_of_first scaled first
    have value := unitsOfRank_eq m.rank
    have positive := Nat.two_pow_pos scale
    rw [first, scaled, Nat.pow_succ] at value
    rw [scaled, Nat.pow_succ] at gapAbove
    omega

theorem seventeenth_isSome (tie : Tie) (nonzero : 0 < m.rank) :
    (m.onGrid? tie (m.leadingPower - (16 : Nat))).isSome := by
  apply onGrid?_isSome
  have leading := leadingPower_le (Nat.zero_lt_of_lt (pred_lt_units nonzero))
  have gap : (2 * m.units : ℚ) < 10 ^ 16 * (m.roomBelow + m.roomAbove) := by
    exact_mod_cast two_mul_units_lt nonzero
  have fine : 2 * unitsPerOne * (10 : ℚ) ^ (m.leadingPower - (16 : Nat)) <
      m.roomBelow + m.roomAbove := by
    rw [zpow_sub₀ (by decide), zpow_natCast, ← mul_div_assoc, div_lt_iff₀ (by positivity)]
    linarith
  rw [zpow_eq_pow_div_pow, ← mul_div_assoc, div_lt_iff₀ (by positivity)] at fine
  unfold halfUnitsPerOne
  exact_mod_cast fine

theorem exists_first_of_findSome?_range {α : Type*} {f : Nat → Option α} {count : Nat} {a : α}
    (found : (List.range count).findSome? f = some a) :
    ∃ first < count, f first = some a ∧ ∀ earlier < first, f earlier = none := by
  obtain ⟨before, first, after, split, isFound, missed⟩ := List.findSome?_eq_some_iff.mp found
  have within : before.length < count := by
    have total := congrArg List.length split
    simp only [List.length_range, List.length_append, List.length_cons] at total
    omega
  have each (index : Nat) (small : index < count) :
      (before ++ first :: after)[index]? = some index := by
    rw [← split, List.getElem?_range small]
  have position : first = before.length := by
    have atEnd := each before.length within
    rw [List.getElem?_append_right (Nat.le_refl _), Nat.sub_self] at atEnd
    exact Option.some.inj atEnd
  subst position
  refine ⟨_, within, isFound, fun earlier less => missed earlier ?_⟩
  have isBefore := each earlier (less.trans within)
  rw [List.getElem?_append_left less] at isBefore
  exact List.mem_of_getElem? isBefore

/-- What the search finds on the first grid that has a point is the shortest decimal, its zeros moved
to the exponent. -/
theorem exists_onGrid? (nonzero : 0 < m.rank) (tie : Tie) :
    ∃ (more : Nat) (d : Decimal), more < 17 ∧ m.onGrid? tie (m.leadingPower - more) = some d ∧
      m.shortest tie = d.stripZeros 17 ∧
      ∀ fewer < more, m.onGrid? tie (m.leadingPower - fewer) = none := by
  unfold shortest
  dsimp only
  generalize search : (List.range 17).findSome? (fun (more : Nat) =>
    m.onGrid? tie (m.leadingPower - more)) = found
  cases found with
  | none =>
    have last := List.findSome?_eq_none_iff.mp search 16 (by decide)
    have some := seventeenth_isSome tie nonzero
    rw [last] at some
    cases some
  | some d =>
    obtain ⟨more, within, point, missed⟩ := exists_first_of_findSome?_range search
    exact ⟨more, d, within, point, rfl, missed⟩

theorem shortest_attracts (nonzero : 0 < m.rank) (tie : Tie) :
    m.Attracts ((m.shortest tie).value * unitsPerOne) := by
  obtain ⟨more, d, -, point, same, -⟩ := exists_onGrid? nonzero tie
  rw [same, Decimal.stripZeros_value]
  exact onGrid?_attracts nonzero point

end Magnitude

end ScriptCore
