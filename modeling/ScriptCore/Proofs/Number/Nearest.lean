import ScriptCore.Proofs.Number.RoundTrip
import ScriptCore.Proofs.Number.Exact

/-! # The nearest magnitude

Rounding gives the magnitude that no other is nearer than, and of two equally near the even one.
Infinity takes part with the bound that overflows as its value, so a number is infinite from the
midpoint below that bound on. A decimal is rounded in this sense wherever its point stands: one that
is recognised by the place of its first digit alone lies beyond the last or below the first midpoint.
-/

namespace ScriptCore

/-- From the midpoint on, the greater of two numbers is the nearer one. -/
theorem abs_sub_le_of_midpoint_le {low high value : ℚ} (ordered : low < high)
    (beyond : (low + high) / 2 ≤ value) :
    |high - value| ≤ |low - value| ∧ (|high - value| = |low - value| → value = (low + high) / 2) := by
  have away : |low - value| = value - low := by
    rw [abs_sub_comm, abs_of_nonneg]
    linarith
  rw [away]
  refine ⟨abs_le.mpr ⟨by linarith, by linarith⟩, fun equal => ?_⟩
  rcases le_total value high with below | above
  · rw [abs_of_nonneg (sub_nonneg.mpr below)] at equal
    linarith
  · rw [abs_of_nonpos (sub_nonpos.mpr above)] at equal
    linarith

theorem abs_sub_le_of_le_midpoint {low high value : ℚ} (ordered : low < high)
    (before : value ≤ (low + high) / 2) :
    |low - value| ≤ |high - value| ∧ (|low - value| = |high - value| → value = (low + high) / 2) := by
  have reflected : (-high + -low) / 2 ≤ -value := by linarith
  have mirrored := abs_sub_le_of_midpoint_le (neg_lt_neg ordered) reflected
  rw [neg_sub_neg, neg_sub_neg, abs_sub_comm value, abs_sub_comm value] at mirrored
  exact ⟨mirrored.1, fun equal => by linarith [mirrored.2 equal]⟩

namespace Magnitude

/-- The magnitude nearest to a number of units, the even one of two equally near. -/
structure IsNearest (m : Magnitude) (units : ℚ) : Prop where
  nearest : ∀ other : Magnitude, |m.units - units| ≤ |other.units - units|
  tie : ∀ other : Magnitude, other ≠ m → |m.units - units| = |other.units - units| → m.rank % 2 = 0

variable {m : Magnitude} {units : ℚ}

/-- The midpoints to the neighbours decide, and infinity has none above. -/
theorem IsNearest.of_ends (lower : m.lowerEnd ≤ units)
    (upper : m.rank < infinityRank → units ≤ m.upperEnd)
    (tie : units = m.lowerEnd ∨ m.rank < infinityRank ∧ units = m.upperEnd → m.rank % 2 = 0) :
    m.IsNearest units := by
  have compared (other : Magnitude) (different : other ≠ m) :
      |m.units - units| ≤ |other.units - units| ∧
        (|m.units - units| = |other.units - units| → m.rank % 2 = 0) := by
    rcases lt_trichotomy other.rank m.rank with less | same | more
    · -- The midpoint to a smaller magnitude is at most the lower end.
      have ordered : (other.units : ℚ) < m.units := Nat.cast_lt.mpr (unitsOfRank_strictMono less)
      have before : (other.units : ℚ) ≤ unitsOfRank (m.rank - 1) :=
        Nat.cast_le.mpr (unitsOfRank_strictMono.monotone (Nat.le_pred_of_lt less))
      have ends : ((other.units : ℚ) + m.units) / 2 ≤ m.lowerEnd := by
        rw [lowerEnd]
        linarith
      obtain ⟨nearer, half⟩ := abs_sub_le_of_midpoint_le ordered (ends.trans lower)
      refine ⟨nearer, fun equal => tie (.inl (le_antisymm ?_ lower))⟩
      exact (half equal).trans_le ends
    · exact absurd (ext_rank same) different
    · have ordered : (m.units : ℚ) < other.units := Nat.cast_lt.mpr (unitsOfRank_strictMono more)
      have finite : m.rank < infinityRank := more.trans_le other.rank_le
      have after : (unitsOfRank (m.rank + 1) : ℚ) ≤ other.units :=
        Nat.cast_le.mpr (unitsOfRank_strictMono.monotone more)
      have ends : m.upperEnd ≤ ((m.units : ℚ) + other.units) / 2 := by
        rw [upperEnd]
        linarith
      obtain ⟨nearer, half⟩ := abs_sub_le_of_le_midpoint ordered ((upper finite).trans ends)
      refine ⟨nearer, fun equal => tie (.inr ⟨finite, le_antisymm (upper finite) ?_⟩)⟩
      exact ends.trans_eq (half equal).symm
  refine ⟨fun other => ?_, fun other different => (compared other different).2⟩
  rcases eq_or_ne other m with rfl | different
  · exact le_refl _
  · exact (compared other different).1

/-- Two magnitudes equally near would both be even, with a nearer one between them. -/
theorem IsNearest.unique {other : Magnitude} (first : m.IsNearest units)
    (second : other.IsNearest units) : m = other := by
  wlog ordered : m.rank ≤ other.rank generalizing m other
  · exact (this second first (Nat.le_of_not_le ordered)).symm
  by_contra different
  have equal := le_antisymm (first.nearest other) (second.nearest m)
  have even := first.tie other (Ne.symm different) equal
  have otherEven := second.tie m different equal.symm
  have apart : m.rank ≠ other.rank := fun same => different (ext_rank same)
  have last := other.rank_le
  let between : Magnitude := ⟨m.rank + 1, by omega⟩
  have above : (m.units : ℚ) < between.units :=
    Nat.cast_lt.mpr (unitsOfRank_strictMono (Nat.lt_add_one m.rank))
  have below : (between.units : ℚ) < other.units := by
    apply Nat.cast_lt.mpr (unitsOfRank_strictMono _)
    change m.rank + 1 < other.rank
    omega
  have nearer : |(between.units : ℚ) - units| < |other.units - units| := by
    rw [abs_lt]
    constructor
    · have lower := neg_abs_le ((m.units : ℚ) - units)
      linarith
    · have upper := le_abs_self ((other.units : ℚ) - units)
      linarith
  exact (second.nearest between).not_gt nearer

theorem Attracts.isNearest (attracted : m.Attracts units) : m.IsNearest units :=
  .of_ends attracted.lower (fun _ => attracted.upper) fun half =>
    attracted.tie (half.imp_right And.right)

theorem RoundsTo.attracts {numerator denominator : ℕ} (positive : 0 < denominator)
    (rounds : RoundsTo numerator denominator m.rank) : m.Attracts (numerator / denominator) := by
  obtain ⟨lower, upper, tie⟩ := rounds
  have divides : (0 : ℚ) < denominator := Nat.cast_pos.mpr positive
  constructor
  · rw [lowerEnd, Magnitude.units, div_le_div_iff₀ two_pos divides]
    have scaled : (denominator * (unitsOfRank (m.rank - 1) + unitsOfRank m.rank) : ℚ) ≤
        2 * numerator := by exact_mod_cast lower
    linarith
  · rw [upperEnd, Magnitude.units, div_le_div_iff₀ divides two_pos]
    have scaled : (2 * numerator : ℚ) ≤
        denominator * (unitsOfRank m.rank + unitsOfRank (m.rank + 1)) := by exact_mod_cast upper
    linarith
  · rw [lowerEnd, upperEnd, Magnitude.units, div_eq_div_iff divides.ne' two_pos.ne',
      div_eq_div_iff divides.ne' two_pos.ne']
    intro half
    apply tie
    norm_cast at half
    exact half.imp (fun below => by linarith) (fun above => by linarith)

/-- What is rounded is rounded to the nearest magnitude. -/
theorem isNearest_nearest (numerator : ℕ) {denominator : ℕ} (positive : 0 < denominator) :
    (nearest numerator denominator).IsNearest (numerator / denominator) := by
  have rounds := roundsTo_nearestRank numerator positive
  rcases Nat.lt_or_ge (nearestRank numerator denominator) infinityRank with finite | beyond
  · have rank : nearestRank numerator denominator = (nearest numerator denominator).rank :=
      (Nat.min_eq_left finite.le).symm
    rw [rank] at rounds
    exact (rounds.attracts positive).isNearest
  · have last : nearest numerator denominator = infinity := ext_rank (Nat.min_eq_right beyond)
    have top : infinity.rank = infinityRank := rfl
    rw [last]
    apply IsNearest.of_ends
    · have divides : (0 : ℚ) < denominator := Nat.cast_pos.mpr positive
      have before := unitsOfRank_strictMono.monotone (Nat.sub_le_sub_right beyond 1)
      have same := unitsOfRank_strictMono.monotone beyond
      have bound := (Nat.mul_le_mul_left denominator (Nat.add_le_add before same)).trans rounds.lower
      rw [lowerEnd, Magnitude.units, top, div_le_div_iff₀ two_pos divides]
      generalize unitsOfRank (infinityRank - 1) = first at *
      generalize unitsOfRank infinityRank = second at *
      have scaled : (denominator * (first + second) : ℚ) ≤ 2 * numerator := by exact_mod_cast bound
      linarith
    · exact fun finite => absurd finite (Nat.lt_irrefl _)
    · exact fun _ => by decide

theorem isNearest_zero {units : ℚ} (nonnegative : 0 ≤ units) (small : 2 * units < 1) :
    IsNearest .zero units := by
  have lowest : Magnitude.zero.lowerEnd = 0 := by decide +kernel
  have next : Magnitude.zero.upperEnd = 1 / 2 := by decide +kernel
  apply IsNearest.of_ends
  · exact lowest.trans_le nonnegative
  · rw [next]
    intro _
    linarith
  · exact fun _ => rfl

theorem isNearest_infinity {units : ℚ} (beyond : infinity.units ≤ units) :
    IsNearest infinity units := by
  apply IsNearest.of_ends
  · have ordered : (unitsOfRank (infinity.rank - 1) : ℚ) ≤ infinity.units :=
      Nat.cast_le.mpr infinity.pred_le_units
    rw [lowerEnd]
    linarith
  · exact fun finite => absurd finite (Nat.lt_irrefl _)
  · exact fun _ => by decide

end Magnitude

/-! ## Decimals -/

namespace Double

open Magnitude (IsNearest unitsPerOne unitsPerOne_pos)

variable {digits : List Nat} {exponent : Int}

theorem ofDecimal_of_zeros (zeros : digits.dropWhile (· == 0) = []) (negative : Bool)
    (exponent : Int) : ofDecimal negative digits exponent = signed negative .zero := by
  rw [ofDecimal, zeros]
  rfl

theorem ofDecimal_of_large (nonzero : digits.dropWhile (· == 0) ≠ []) (negative : Bool)
    (large : 309 < (digits.dropWhile (· == 0)).length + exponent) :
    ofDecimal negative digits exponent = signed negative .infinity := by
  rw [ofDecimal]
  rw [if_neg (by simpa using nonzero), if_pos large]

theorem ofDecimal_of_small (nonzero : digits.dropWhile (· == 0) ≠ []) (negative : Bool)
    (small : (digits.dropWhile (· == 0)).length + exponent < -324) :
    ofDecimal negative digits exponent = signed negative .zero := by
  rw [ofDecimal]
  rw [if_neg (by simpa using nonzero), if_neg (by omega), if_pos small]

theorem ofDecimal_of_between (nonzero : digits.dropWhile (· == 0) ≠ []) (negative : Bool)
    (atMost : (digits.dropWhile (· == 0)).length + exponent ≤ 309)
    (atLeast : -324 ≤ (digits.dropWhile (· == 0)).length + exponent) :
    ofDecimal negative digits exponent =
      ofRatio negative (ofDigits 10 digits * 10 ^ exponent.toNat) (10 ^ (-exponent).toNat) := by
  rw [ofDecimal]
  rw [if_neg (by simpa using nonzero), if_neg (by omega), if_neg (by omega), ofLongDigits_eq,
    ofDigits_dropZeros]

/-- The first digit other than zero gives the size of a decimal. -/
theorem decimal_bounds (each : ∀ digit ∈ digits, digit < 10)
    (nonzero : digits.dropWhile (· == 0) ≠ []) (exponent : Int) :
    (10 : ℚ) ^ ((digits.dropWhile (· == 0)).length + exponent - 1) ≤
        ofDigits 10 digits * 10 ^ exponent ∧
      ofDigits 10 digits * (10 : ℚ) ^ exponent <
        10 ^ ((digits.dropWhile (· == 0)).length + exponent) := by
  have fewer : ∀ digit ∈ digits.dropWhile (· == 0), digit < 10 := fun digit isDigit =>
    each digit (List.dropWhile_subset _ isDigit)
  have leading := List.head?_dropWhile_not (· == 0) digits
  have scale : (0 : ℚ) < 10 ^ exponent := by positivity
  rw [← ofDigits_dropZeros]
  generalize digits.dropWhile (· == 0) = digits at *
  cases digits with
  | nil => exact absurd rfl nonzero
  | cons digit digits =>
    have positive : 0 < digit := by
      simpa [Nat.pos_iff_ne_zero] using leading
    have least := pow_le_ofDigits_cons 10 positive digits
    have less := ofDigits_lt (show 1 < 10 by decide) fewer
    constructor
    · have power : (10 : ℚ) ^ (((digit :: digits).length : ℤ) + exponent - 1) =
          10 ^ digits.length * 10 ^ exponent := by
        rw [← zpow_natCast, ← zpow_add₀ (by decide), List.length_cons]
        congr 1
        omega
      rw [power]
      exact mul_le_mul_of_nonneg_right (by exact_mod_cast least) scale.le
    · rw [zpow_add₀ (by decide), zpow_natCast]
      exact mul_lt_mul_of_pos_right (by exact_mod_cast less) scale

theorem infinity_units_le {value : ℚ} (large : 10 ^ (309 : ℤ) ≤ value) :
    (Magnitude.infinity.units : ℚ) ≤ value * unitsPerOne := by
  have bound : Magnitude.infinity.units ≤ 10 ^ 309 * unitsPerOne := by decide +kernel
  have one : (0 : ℚ) ≤ unitsPerOne := Nat.cast_nonneg _
  generalize Magnitude.infinity.units = top at *
  generalize unitsPerOne = unit at *
  calc (top : ℚ) ≤ 10 ^ (309 : ℤ) * unit := by exact_mod_cast bound
    _ ≤ value * unit := mul_le_mul_of_nonneg_right large one

theorem two_mul_units_lt_one {value : ℚ} (small : value < 10 ^ (-325 : ℤ)) :
    2 * (value * unitsPerOne) < 1 := by
  have bound : 2 * unitsPerOne < 10 ^ 325 := by decide +kernel
  have one : (0 : ℚ) < unitsPerOne := Nat.cast_pos.mpr unitsPerOne_pos
  generalize unitsPerOne = unit at *
  have power : (0 : ℚ) < 10 ^ (-325 : ℤ) := by positivity
  have cancel : (10 : ℚ) ^ (-325 : ℤ) * 10 ^ 325 = 1 := by
    rw [zpow_neg, zpow_ofNat]
    exact inv_mul_cancel₀ (by positivity)
  calc 2 * (value * unit) < 2 * (10 ^ (-325 : ℤ) * unit) := by
        linarith [mul_lt_mul_of_pos_right small one]
    _ = 10 ^ (-325 : ℤ) * (2 * unit) := by ring
    _ < 10 ^ (-325 : ℤ) * 10 ^ 325 := mul_lt_mul_of_pos_left (by exact_mod_cast bound) power
    _ = 1 := cancel

/-- A decimal is rounded to the nearest magnitude, in the range of doubles and beyond it. -/
theorem ofDecimal_isNearest (negative : Bool) (each : ∀ digit ∈ digits, digit < 10)
    (exponent : Int) :
    ∃ m, ofDecimal negative digits exponent = signed negative m ∧
      m.IsNearest (ofDigits 10 digits * 10 ^ exponent * unitsPerOne) := by
  by_cases nonzero : digits.dropWhile (· == 0) = []
  · refine ⟨.zero, ofDecimal_of_zeros nonzero negative exponent, ?_⟩
    have none : ofDigits 10 digits = 0 := by
      rw [← ofDigits_dropZeros, nonzero]
      rfl
    rw [none, Nat.cast_zero, zero_mul, zero_mul]
    exact Magnitude.isNearest_zero (le_refl _) (by norm_num)
  · obtain ⟨lower, upper⟩ := decimal_bounds each nonzero exponent
    have positive : (0 : ℚ) ≤ ofDigits 10 digits * 10 ^ exponent :=
      mul_nonneg (Nat.cast_nonneg _) (zpow_nonneg (by decide) _)
    rcases lt_or_ge (309 : ℤ) ((digits.dropWhile (· == 0)).length + exponent) with large | atMost
    · refine ⟨.infinity, ofDecimal_of_large nonzero negative large, ?_⟩
      have bound : (10 : ℚ) ^ (309 : ℤ) ≤ ofDigits 10 digits * 10 ^ exponent :=
        (zpow_le_zpow_right₀ (by decide) (by omega)).trans lower
      exact Magnitude.isNearest_infinity (infinity_units_le bound)
    · rcases lt_or_ge ((digits.dropWhile (· == 0)).length + exponent : ℤ) (-324) with small | atLeast
      · refine ⟨.zero, ofDecimal_of_small nonzero negative small, ?_⟩
        have bound : ofDigits 10 digits * (10 : ℚ) ^ exponent < 10 ^ (-325 : ℤ) :=
          upper.trans_le (zpow_le_zpow_right₀ (by decide) (by omega))
        exact Magnitude.isNearest_zero (mul_nonneg positive (Nat.cast_nonneg _))
          (two_mul_units_lt_one bound)
      · have fraction : (ofDigits 10 digits * 10 ^ exponent * unitsPerOne : ℚ) =
            (ofDigits 10 digits * 10 ^ exponent.toNat * unitsPerOne : ℕ) /
              (10 ^ (-exponent).toNat : ℕ) := by
          rw [zpow_eq_pow_div_pow]
          generalize unitsPerOne = unit
          push_cast
          field_simp
        refine ⟨.nearest (ofDigits 10 digits * 10 ^ exponent.toNat * unitsPerOne)
          (10 ^ (-exponent).toNat), ?_, ?_⟩
        · rw [ofDecimal_of_between nonzero negative atMost atLeast, ofRatio, nearest]
        · rw [fraction]
          exact Magnitude.isNearest_nearest _ (Nat.pow_pos (by decide))

end Double

end ScriptCore
