import ScriptCore.Number.Double
import ScriptCore.Proofs.Number.Exact

/-! # Arithmetic of exact values

As long as they are exact, `Double.ofUnits` turns sums, differences, remainders and comparisons of
naturals into those of doubles. Products and quotients are rounded once; what is compared with an
exact value may be rounded, since rounding carries nothing past one.
-/

namespace ScriptCore

namespace Double

open Magnitude (IsExact unitsPerOne)

/-- The double nearest to a natural number of units. -/
def ofUnits (units : Nat) : Double := nearest false units 1

theorem ofNat_eq_ofUnits (n : Nat) : ofNat n = ofUnits (n * unitsPerOne) := rfl

theorem ofUnits_units (m : Magnitude) : ofUnits m.units = signed false m := by
  rw [ofUnits, nearest, ← Nat.one_mul m.units, m.nearest_units Nat.one_pos]

/-- A natural number of units, rounded. -/
def roundedUnits (units : Nat) : Nat := (Magnitude.nearest units 1).units

theorem ofUnits_roundedUnits (units : Nat) : ofUnits (roundedUnits units) = ofUnits units :=
  ofUnits_units _

theorem roundedUnits_eq {units : Nat} (exact : IsExact units) : roundedUnits units = units := by
  obtain ⟨m, -, rfl⟩ := exact
  rw [roundedUnits, ← Nat.one_mul m.units, m.nearest_units Nat.one_pos, Nat.one_mul]

theorem nearest_of_dvd {numerator denominator units : Nat} (positive : 0 < denominator)
    (value : numerator = units * denominator) (negative : Bool) :
    nearest negative numerator denominator = nearest negative units 1 := by
  have scaled := Magnitude.nearest_mul_right positive units 1
  rw [Nat.one_mul] at scaled
  rw [nearest, nearest, value, scaled]

/-! ## Arithmetic of exact values -/

variable {a b : Nat}

theorem isInfinite_eq_false {m : Magnitude} (finite : m.rank < Magnitude.infinityRank) :
    m.isInfinite = false := by
  rw [Magnitude.isInfinite, beq_eq_false_iff_ne]
  exact finite.ne

theorem isZero_eq_false {m : Magnitude} (nonzero : 0 < m.units) : m.isZero = false := by
  rw [Magnitude.isZero, beq_eq_false_iff_ne]
  rintro none
  rw [Magnitude.units, none] at nonzero
  exact Nat.lt_irrefl 0 nonzero

theorem ofUnits_zero : ofUnits 0 = zero := ofUnits_units .zero

theorem ofNat_literal (n : Nat) : (OfNat.ofNat n : Double) = ofUnits (n * unitsPerOne) := rfl

theorem ofNat_zero : (0 : Double) = zero := by
  rw [ofNat_literal, Nat.zero_mul, ofUnits_zero]

theorem ofNat_one : (1 : Double) = ofUnits unitsPerOne := by
  rw [ofNat_literal, Nat.one_mul]

/-- A whole number of ones within the range in which they follow on each other. -/
theorem exists_ofNat_of_exact {n : Nat} (exact : IsExact (n * unitsPerOne)) :
    ∃ m : Magnitude, m.rank < Magnitude.infinityRank ∧ m.units = n * unitsPerOne ∧
      ofNat n = signed false m := by
  obtain ⟨m, finite, value⟩ := exact
  exact ⟨m, finite, value, by rw [ofNat_eq_ofUnits, ← value, ofUnits_units]⟩

theorem exists_ofNat_eq {n : Nat} (small : n ≤ 2 ^ 53) :
    ∃ m : Magnitude, m.rank < Magnitude.infinityRank ∧ m.units = n * unitsPerOne ∧
      ofNat n = signed false m :=
  exists_ofNat_of_exact (.ones small)

theorem less_zero {m : Magnitude} (nonzero : 0 < m.rank) (negative : Bool) :
    (signed negative m).less 0 = negative := by
  rw [ofNat_zero, zero, less]
  cases negative <;> simp [place, Magnitude.zero, nonzero]

/-- A sum with a positive operand, and itself a natural number of units. -/
theorem add_eq_ofUnits {m k : Magnitude} (finite : m.rank < Magnitude.infinityRank)
    (bounded : k.rank < Magnitude.infinityRank) (negative : Bool) {units : Nat}
    (sum : (m.units : Int) + signedUnits negative k = units) :
    add (signed false m) (signed negative k) = ofUnits units := by
  have nonnegative : ¬ (units : Int) < 0 := by omega
  have value : signedUnits false m + signedUnits negative k = units := sum
  rw [add, isInfinite_eq_false finite, isInfinite_eq_false bounded, value]
  cases units with
  | zero => exact ofUnits_zero.symm
  | succ units => rfl

theorem ofUnits_add (first : IsExact a) (second : IsExact b) :
    ofUnits a + ofUnits b = ofUnits (a + b) := by
  obtain ⟨m, finite, rfl⟩ := first
  obtain ⟨k, bounded, rfl⟩ := second
  rw [ofUnits_units, ofUnits_units]
  exact add_eq_ofUnits finite bounded false rfl

theorem ofUnits_sub (first : IsExact a) (second : IsExact b) (ordered : b ≤ a) :
    ofUnits a - ofUnits b = ofUnits (a - b) := by
  obtain ⟨m, finite, rfl⟩ := first
  obtain ⟨k, bounded, rfl⟩ := second
  rw [ofUnits_units, ofUnits_units]
  exact add_eq_ofUnits finite bounded true (by rw [signedUnits, if_pos rfl]; omega)

theorem ofUnits_mul (first : IsExact a) (second : IsExact b) :
    ofUnits a * ofUnits b = nearest false (a * b) unitsPerOne := by
  obtain ⟨m, finite, rfl⟩ := first
  obtain ⟨k, bounded, rfl⟩ := second
  rw [ofUnits_units, ofUnits_units]
  show mul _ _ = _
  rw [mul, isInfinite_eq_false finite, isInfinite_eq_false bounded]
  rfl

theorem ofUnits_mul_ofNat {units n : Nat} (exact : IsExact units) (small : n ≤ 2 ^ 53) :
    ofUnits units * ofNat n = ofUnits (units * n) := by
  rw [ofNat_eq_ofUnits, ofUnits_mul exact (.ones small),
    nearest_of_dvd Magnitude.unitsPerOne_pos (Nat.mul_assoc ..).symm, ofUnits]

theorem ofUnits_div (first : IsExact a) (second : IsExact b) (nonzero : 0 < b) :
    ofUnits a / ofUnits b = nearest false (a * unitsPerOne) b := by
  obtain ⟨m, finite, rfl⟩ := first
  obtain ⟨k, bounded, rfl⟩ := second
  rw [ofUnits_units, ofUnits_units]
  show div _ _ = _
  rw [div, isInfinite_eq_false finite, isInfinite_eq_false bounded, isZero_eq_false nonzero]
  rfl

theorem ofUnits_rem (first : IsExact a) (second : IsExact b) (nonzero : 0 < b) :
    ofUnits a % ofUnits b = ofUnits (a % b) := by
  obtain ⟨m, finite, rfl⟩ := first
  obtain ⟨k, bounded, rfl⟩ := second
  rw [ofUnits_units, ofUnits_units]
  show rem _ _ = _
  rw [rem, isInfinite_eq_false finite, isInfinite_eq_false bounded, isZero_eq_false nonzero]
  rfl

theorem truncate_ofUnits (exact : IsExact a) :
    (ofUnits a).truncate = ofUnits (a / unitsPerOne * unitsPerOne) := by
  obtain ⟨m, finite, rfl⟩ := exact
  rw [ofUnits_units, truncate, isInfinite_eq_false finite, if_neg Bool.false_ne_true, ofUnits]

theorem wholeNat_ofUnits (exact : IsExact a) : (ofUnits a).wholeNat = a / unitsPerOne := by
  obtain ⟨m, finite, rfl⟩ := exact
  rw [ofUnits_units, wholeNat, isInfinite_eq_false finite, if_neg Bool.false_ne_true]

/-- What is left of an exact value without its whole part. -/
theorem ofUnits_sub_whole (exact : IsExact a) (small : a / unitsPerOne ≤ 2 ^ 53) :
    ofUnits a - ofNat (a / unitsPerOne) = ofUnits (a % unitsPerOne) := by
  rw [ofNat_eq_ofUnits, ofUnits_sub exact (.ones small) (Nat.div_mul_le_self ..),
    ← Nat.mod_eq_sub_div_mul]

/-! ## Comparison with exact values -/

variable {numerator denominator : Nat}

theorem less_signed {m k : Magnitude} :
    (signed false m).less (signed false k) = true ↔ m.rank < k.rank := by
  simp [less, place]

theorem atMost_signed {m k : Magnitude} :
    (signed false m).atMost (signed false k) = true ↔ m.rank ≤ k.rank := by
  simp [atMost, place]

theorem equals_signed {m k : Magnitude} :
    (signed false m).equals (signed false k) = true ↔ m.rank = k.rank := by
  simp [equals, place]

theorem ofUnits_less (first : IsExact a) (second : IsExact b) :
    (ofUnits a).less (ofUnits b) = true ↔ a < b := by
  obtain ⟨m, -, rfl⟩ := first
  obtain ⟨k, -, rfl⟩ := second
  rw [ofUnits_units, ofUnits_units, less_signed]
  exact Magnitude.unitsOfRank_strictMono.lt_iff_lt.symm

theorem ofUnits_atMost (first : IsExact a) (second : IsExact b) :
    (ofUnits a).atMost (ofUnits b) = true ↔ a ≤ b := by
  obtain ⟨m, -, rfl⟩ := first
  obtain ⟨k, -, rfl⟩ := second
  rw [ofUnits_units, ofUnits_units, atMost_signed]
  exact Magnitude.unitsOfRank_strictMono.le_iff_le.symm

theorem ofUnits_equals (first : IsExact a) (second : IsExact b) :
    (ofUnits a).equals (ofUnits b) = true ↔ a = b := by
  obtain ⟨m, -, rfl⟩ := first
  obtain ⟨k, -, rfl⟩ := second
  rw [ofUnits_units, ofUnits_units, equals_signed]
  exact Magnitude.unitsOfRank_strictMono.injective.eq_iff.symm

/-- What is rounded to more than an exact value was more before. -/
theorem lt_of_ofUnits_less (exact : IsExact a) (positive : 0 < denominator)
    (greater : (ofUnits a).less (nearest false numerator denominator) = true) :
    denominator * a < numerator := by
  obtain ⟨m, -, rfl⟩ := exact
  rw [ofUnits_units, nearest, less_signed] at greater
  refine Nat.lt_of_not_le fun atMost => ?_
  have bounded := Magnitude.nearest_le positive atMost
  omega

/-- What lies below an exact value stays below a greater one. -/
theorem not_ofUnits_atMost (first : IsExact a) (second : IsExact b) (positive : 0 < denominator)
    (less : b < a) (atMost : numerator ≤ denominator * b) :
    ¬ (ofUnits a).atMost (nearest false numerator denominator) = true := by
  obtain ⟨m, -, rfl⟩ := first
  obtain ⟨k, -, rfl⟩ := second
  rw [ofUnits_units, nearest, atMost_signed]
  have before := Magnitude.unitsOfRank_strictMono.lt_iff_lt.mp less
  have after := Magnitude.nearest_le positive atMost
  omega

end Double

end ScriptCore
