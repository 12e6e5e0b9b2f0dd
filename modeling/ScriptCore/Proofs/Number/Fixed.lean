import Mathlib.Algebra.Order.Floor.Ring
import Mathlib.Data.Rat.Floor
import ScriptCore.Proofs.Number.Arithmetic
import ScriptCore.Proofs.Number.Expansion

/-! # Numbers with a fixed count of places

A finite double is an exact rational. An argument that counts places stands for the integer part of
its value, and the count is refused unless it lies between the bounds. A number is then written as
the multiple of a power of ten that is nearest to its exact value, the greater one of two: every tie
of the exact values is a tie of the digits that are written.
-/

namespace ScriptCore

open Magnitude (IsExact unitsPerOne unitsPerOne_pos infinityRank)

/-! ## Exact values and their integer parts -/

/-- The integer part of a rational, toward zero. -/
def integerPart (value : ℚ) : ℤ := if 0 ≤ value then ⌊value⌋ else ⌈value⌉

namespace Double

/-- The rational that a finite double is. -/
def exactValue? : Double → Option ℚ
  | nan => none
  | signed negative m =>
    if m.isInfinite then none else some ((signedUnits negative m : ℚ) / unitsPerOne)

/-- The integer that a number stands for as an argument: not-a-number for zero, any other finite one
for its integer part, and the infinite ones for none. -/
def asked? (argument : Double) : Option ℤ :=
  if argument.isNaN then some 0 else argument.exactValue?.map integerPart

variable {m k : Magnitude}

theorem exactValue?_of_finite (finite : m.rank < infinityRank) (negative : Bool) :
    (signed negative m).exactValue? = some ((signedUnits negative m : ℚ) / unitsPerOne) := by
  rw [exactValue?, isInfinite_eq_false finite, if_neg Bool.false_ne_true]

theorem integerPart_signedUnits (negative : Bool) (m : Magnitude) :
    integerPart ((signedUnits negative m : ℚ) / unitsPerOne) =
      if negative then -((m.units / unitsPerOne : ℕ) : ℤ) else (m.units / unitsPerOne : ℕ) := by
  rw [signedUnits]
  generalize m.units = units
  generalize unitsPerOne = one
  have floored : ⌊(units : ℚ) / one⌋ = (units / one : ℕ) := Rat.floor_natCast_div_natCast ..
  have nonnegative : (0 : ℚ) ≤ units / one := by positivity
  cases negative with
  | false =>
    rw [if_neg Bool.false_ne_true, if_neg Bool.false_ne_true, Int.cast_natCast, integerPart,
      if_pos nonnegative, floored]
  | true =>
    rw [if_pos rfl, if_pos rfl, Int.cast_neg, Int.cast_natCast, neg_div, integerPart]
    split
    · next zero =>
      have none : (units : ℚ) / one = 0 := le_antisymm (by linarith) nonnegative
      rw [none, Int.floor_zero] at floored
      rw [none, neg_zero, Int.floor_zero, ← floored, neg_zero]
    · rw [Int.ceil_neg, floored]

/-! ## Arguments within bounds -/

theorem atMost_iff (first second : Bool) :
    (signed first m).atMost (signed second k) = true ↔
      signedUnits first m ≤ signedUnits second k := by
  have units_le {a b : Magnitude} : a.units ≤ b.units ↔ a.rank ≤ b.rank :=
    Magnitude.unitsOfRank_strictMono.le_iff_le
  have units_pos {a : Magnitude} : 0 < a.units ↔ 0 < a.rank :=
    Magnitude.unitsOfRank_strictMono.lt_iff_lt (a := 0)
  have forward := @units_le m k
  have backward := @units_le k m
  have left := @units_pos m
  have right := @units_pos k
  rw [atMost, decide_eq_true_iff]
  cases first <;> cases second <;> simp only [place, signedUnits, if_true, if_false,
    Bool.false_eq_true] <;> omega

theorem exists_truncate_eq (finite : m.rank < infinityRank) (negative : Bool) :
    ∃ whole : Magnitude, whole.rank < infinityRank ∧
      whole.units = m.units / unitsPerOne * unitsPerOne ∧
      (signed negative m).truncate = signed negative whole := by
  obtain ⟨whole, bounded, value⟩ := (show IsExact m.units from ⟨m, finite, rfl⟩).floor
  refine ⟨whole, bounded, value, ?_⟩
  rw [truncate, isInfinite_eq_false finite, if_neg Bool.false_ne_true, ← value, nearest,
    ← Nat.one_mul whole.units, whole.nearest_units Nat.one_pos]

theorem wholeNat_of_units {negative : Bool} (finite : m.rank < infinityRank) {n : ℕ}
    (value : m.units = n * unitsPerOne) : (signed negative m).wholeNat = n := by
  rw [wholeNat, isInfinite_eq_false finite, if_neg Bool.false_ne_true, value,
    Nat.mul_div_cancel _ unitsPerOne_pos]

theorem signedUnits_eq_mul {negative : Bool} {n : ℕ} (value : m.units = n * unitsPerOne) :
    signedUnits negative m = (if negative then -(n : ℤ) else n) * unitsPerOne := by
  rw [signedUnits, value]
  generalize unitsPerOne = unit
  cases negative <;> simp

/-- The bounds are compared with the integer part, and no rounding comes in. -/
theorem integerWithin?_signed {least greatest : ℕ} (ordered : least ≤ greatest)
    (small : greatest ≤ 2 ^ 53) (finite : m.rank < infinityRank) (negative : Bool) :
    integerWithin? least greatest (signed negative m) =
      if least ≤ integerPart ((signedUnits negative m : ℚ) / unitsPerOne) ∧
          integerPart ((signedUnits negative m : ℚ) / unitsPerOne) ≤ greatest then
        some (m.units / unitsPerOne) else none := by
  obtain ⟨low, -, lowValue, lowIs⟩ := exists_ofNat_eq (ordered.trans small)
  obtain ⟨high, -, highValue, highIs⟩ := exists_ofNat_eq small
  obtain ⟨whole, bounded, wholeValue, wholeIs⟩ := exists_truncate_eq finite negative
  have positive : (0 : ℤ) < unitsPerOne := Int.natCast_pos.mpr unitsPerOne_pos
  rw [integerWithin?, isNaN, if_neg Bool.false_ne_true, wholeIs, lowIs, highIs]
  simp only [Bool.and_eq_true, atMost_iff, signedUnits_eq_mul lowValue, signedUnits_eq_mul highValue,
    signedUnits_eq_mul wholeValue, wholeNat_of_units bounded wholeValue, mul_le_mul_iff_left₀ positive,
    Bool.false_eq_true, if_false, integerPart_signedUnits]

theorem integerWithin?_infinity {least greatest : ℕ} (ordered : least ≤ greatest)
    (small : greatest ≤ 2 ^ 53) (negative : Bool) :
    integerWithin? least greatest (signed negative .infinity) = none := by
  obtain ⟨low, -, lowValue, lowIs⟩ := exists_ofNat_eq (ordered.trans small)
  obtain ⟨high, -, highValue, highIs⟩ := exists_ofNat_eq small
  have above : ((2 ^ 53 * unitsPerOne : ℕ) : ℤ) < (Magnitude.infinity.units : ℤ) := by
    have top : Magnitude.infinity.rank = infinityRank := rfl
    rw [Int.ofNat_lt, Magnitude.units, top, Magnitude.unitsOfRank_infinityRank]
    exact (IsExact.ones (le_refl _)).lt
  have lowSmall : low.units ≤ 2 ^ 53 * unitsPerOne :=
    lowValue.trans_le (Nat.mul_le_mul_right unitsPerOne (ordered.trans small))
  have highSmall : high.units ≤ 2 ^ 53 * unitsPerOne :=
    highValue.trans_le (Nat.mul_le_mul_right unitsPerOne small)
  have infinite : Magnitude.infinity.isInfinite = true := by decide
  rw [integerWithin?, isNaN, if_neg Bool.false_ne_true, truncate, if_pos infinite, lowIs, highIs,
    if_neg]
  rw [Bool.and_eq_true, atMost_iff, atMost_iff]
  generalize Magnitude.infinity = top at *
  generalize 2 ^ 53 * unitsPerOne = limit at *
  cases negative <;> simp only [signedUnits, if_true, if_false, Bool.false_eq_true] <;> omega

/-- Not-a-number is taken for zero, and an infinite argument is beyond any bound. -/
theorem integerWithin?_eq {least greatest : ℕ} (ordered : least ≤ greatest)
    (small : greatest ≤ 2 ^ 53) (argument : Double) :
    integerWithin? least greatest argument =
      (argument.asked?.filter fun (count : ℤ) => least ≤ count ∧ count ≤ greatest).map
        Int.toNat := by
  have within (negative : Bool) {m : Magnitude} (finite : m.rank < infinityRank) :
      integerWithin? least greatest (signed negative m) =
        ((some (integerPart ((signedUnits negative m : ℚ) / unitsPerOne))).filter
          fun (count : ℤ) => least ≤ count ∧ count ≤ greatest).map Int.toNat := by
    rw [integerWithin?_signed ordered small finite, integerPart_signedUnits, Option.filter_some]
    generalize m.units / unitsPerOne = whole
    by_cases bounded : (least : ℤ) ≤ (if negative then -(whole : ℤ) else whole) ∧
        (if negative then -(whole : ℤ) else whole) ≤ greatest
    · have size : (if negative then -(whole : ℤ) else whole).toNat = whole := by
        cases negative <;> simp only [if_true, if_false, Bool.false_eq_true] at bounded ⊢ <;> omega
      simp [bounded, size]
    · simp [bounded]
  cases argument with
  | nan =>
    have exact : IsExact 0 := ⟨.zero, by decide, rfl⟩
    have cut : (signed false .zero).truncate = zero := by
      change zero.truncate = zero
      rw [← ofUnits_zero, truncate_ofUnits exact, Nat.zero_div, Nat.zero_mul]
    have asZero : integerWithin? least greatest nan =
        integerWithin? least greatest (signed false .zero) := by
      rw [integerWithin?, integerWithin?, isNaN, isNaN, if_pos rfl, if_neg Bool.false_ne_true, cut,
        ofNat_zero]
    have none : integerPart ((signedUnits false .zero : ℚ) / unitsPerOne) = 0 := by
      rw [integerPart_signedUnits, show Magnitude.zero.units = 0 from rfl, Nat.zero_div]
      rfl
    rw [asZero, within false (by decide), none]
    rfl
  | signed negative m =>
    rcases Nat.lt_or_eq_of_le m.rank_le with finite | last
    · rw [within negative finite, asked?, isNaN, if_neg Bool.false_ne_true,
        exactValue?_of_finite finite, Option.map_some]
    · obtain rfl : m = .infinity := Magnitude.ext_rank last
      rw [integerWithin?_infinity ordered small]
      rfl

theorem integerWithin?_eq_none_iff {least greatest : ℕ} (ordered : least ≤ greatest)
    (small : greatest ≤ 2 ^ 53) (argument : Double) :
    integerWithin? least greatest argument = none ↔
      ∀ count, argument.asked? = some count → count < least ∨ greatest < count := by
  rw [integerWithin?_eq ordered small, Option.map_eq_none_iff, Option.filter_eq_none_iff]
  refine forall_congr' fun count => imp_congr_right fun _ => ?_
  rw [decide_eq_true_iff]
  omega

theorem integerWithin?_eq_some_iff {least greatest : ℕ} (ordered : least ≤ greatest)
    (small : greatest ≤ 2 ^ 53) {argument : Double} {count : ℕ} :
    integerWithin? least greatest argument = some count ↔
      argument.asked? = some (count : ℤ) ∧ least ≤ count ∧ count ≤ greatest := by
  rw [integerWithin?_eq ordered small, Option.map_eq_some_iff]
  constructor
  · rintro ⟨asked, kept, rfl⟩
    obtain ⟨isAsked, within⟩ := Option.filter_eq_some_iff.mp kept
    rw [decide_eq_true_iff] at within
    rw [Int.toNat_of_nonneg (by omega)]
    exact ⟨isAsked, by omega, by omega⟩
  · rintro ⟨isAsked, atLeast, atMost⟩
    refine ⟨count, Option.filter_eq_some_iff.mpr ⟨isAsked, ?_⟩, Int.toNat_natCast count⟩
    rw [decide_eq_true_iff]
    omega

end Double

/-! ## Rounding to a multiple -/

/-- The multiple of a step that is nearest to a value, the greater one of two equally near. -/
structure IsNearestMultiple (step value multiple : ℚ) : Prop where
  isMultiple : ∃ count : ℕ, multiple = count * step
  nearest : ∀ count : ℕ, |multiple - value| ≤ |count * step - value|
  tie : ∀ count : ℕ, |multiple - value| = |count * step - value| → count * step ≤ multiple

theorem IsNearestMultiple.of_bounds {step value : ℚ} {count : ℕ} (positive : 0 < step)
    (lower : count * step ≤ value + step / 2) (upper : value + step / 2 < (count + 1) * step) :
    IsNearestMultiple step value (count * step) := by
  have within : |count * step - value| ≤ step / 2 := by
    rw [abs_le]
    constructor <;> linarith
  have below {other : ℕ} (less : other < count) : step / 2 ≤ |other * step - value| := by
    have next : ((other + 1 : ℕ) : ℚ) * step ≤ count * step :=
      mul_le_mul_of_nonneg_right (Nat.cast_le.mpr less) positive.le
    rw [abs_sub_comm]
    push_cast at next
    exact le_trans (by linarith) (le_abs_self _)
  have above {other : ℕ} (more : count < other) : step / 2 < |other * step - value| := by
    have next : ((count + 1 : ℕ) : ℚ) * step ≤ other * step :=
      mul_le_mul_of_nonneg_right (Nat.cast_le.mpr more) positive.le
    push_cast at next
    exact lt_of_lt_of_le (by linarith) (le_abs_self _)
  refine ⟨⟨count, rfl⟩, fun other => ?_, fun other equal => ?_⟩
  · rcases lt_trichotomy other count with less | rfl | more
    · exact within.trans (below less)
    · exact le_refl _
    · exact within.trans (above more).le
  · refine mul_le_mul_of_nonneg_right (Nat.cast_le.mpr (Nat.le_of_not_lt fun more => ?_)) positive.le
    have := above more
    linarith

theorem roundHalfUp_bounds (numerator : ℕ) {denominator : ℕ} (positive : 0 < denominator) :
    (roundHalfUp numerator denominator : ℚ) ≤ numerator / denominator + 1 / 2 ∧
      (numerator / denominator + 1 / 2 : ℚ) < roundHalfUp numerator denominator + 1 := by
  have divides : (0 : ℚ) < denominator := Nat.cast_pos.mpr positive
  have split : (numerator / denominator + 1 / 2 : ℚ) =
      (2 * numerator + denominator : ℕ) / (2 * denominator : ℕ) := by
    push_cast
    field_simp
  have floored : ⌊((2 * numerator + denominator : ℕ) : ℚ) / (2 * denominator : ℕ)⌋ =
      (roundHalfUp numerator denominator : ℕ) := Rat.floor_natCast_div_natCast ..
  rw [split]
  constructor
  · exact_mod_cast floored ▸
      Int.floor_le (((2 * numerator + denominator : ℕ) : ℚ) / (2 * denominator : ℕ))
  · exact_mod_cast floored ▸
      Int.lt_floor_add_one (((2 * numerator + denominator : ℕ) : ℚ) / (2 * denominator : ℕ))

namespace Numeral

theorem IsFixed.value_eq {numeral : Numeral} {places : ℕ} (isFixed : numeral.IsFixed places) :
    numeral.value =
      ofDigits 10 (numeral.whole ++ numeral.fraction) * (10 : ℚ) ^ (-places : ℤ) := by
  rw [value, scale, isFixed.exponent, isFixed.places, Option.getD_none, zero_sub]

/-- The numeral is rounded once, from the fraction that it is given. -/
theorem fixed_nearest (negative : Bool) (numerator : ℕ) {denominator : ℕ} (places : ℕ)
    (positive : 0 < denominator) :
    IsNearestMultiple ((10 : ℚ) ^ (-places : ℤ)) (numerator / denominator)
      (fixed negative numerator denominator places).value := by
  obtain ⟨isFixed, digits⟩ :=
    ofScaled_digits negative (roundHalfUp (numerator * 10 ^ places) denominator) places
  obtain ⟨lower, upper⟩ := roundHalfUp_bounds (numerator * 10 ^ places) positive
  have step : (0 : ℚ) < 10 ^ (-places : ℤ) := by positivity
  have cancel : (10 : ℚ) ^ places * 10 ^ (-places : ℤ) = 1 := by
    rw [zpow_neg, zpow_natCast]
    exact mul_inv_cancel₀ (by positivity)
  have value : (numerator / denominator : ℚ) =
      (numerator * 10 ^ places : ℕ) / denominator * 10 ^ (-places : ℤ) := by
    push_cast
    rw [div_mul_eq_mul_div, mul_assoc, cancel, mul_one]
  rw [fixed, isFixed.value_eq, digits, value]
  generalize (10 : ℚ) ^ (-places : ℤ) = unit at *
  apply IsNearestMultiple.of_bounds step
  · have scaled := mul_le_mul_of_nonneg_right lower step.le
    linarith
  · have scaled := mul_lt_mul_of_pos_right upper step
    linarith

end Numeral

namespace Double

theorem abs_signedUnits (negative : Bool) (m : Magnitude) :
    |(signedUnits negative m : ℚ) / unitsPerOne| = m.units / unitsPerOne := by
  rw [signedUnits]
  generalize unitsPerOne = one
  cases negative <;> simp [abs_div]

theorem signedUnits_neg_iff {negative : Bool} {m : Magnitude} :
    (signedUnits negative m : ℚ) / unitsPerOne < 0 ↔ (negative && !m.isZero) = true := by
  have divides : (0 : ℚ) < unitsPerOne := Nat.cast_pos.mpr unitsPerOne_pos
  have zero : m.isZero = false ↔ 0 < m.units := by
    rw [Magnitude.isZero, beq_eq_false_iff_ne, ← Nat.pos_iff_ne_zero]
    exact (Magnitude.unitsOfRank_strictMono.lt_iff_lt (a := 0)).symm
  rw [div_lt_iff₀ divides, zero_mul, Int.cast_lt_zero, signedUnits, Bool.and_eq_true,
    Bool.not_eq_true', zero]
  cases negative <;> simp

theorem less_zero_iff {negative : Bool} {m : Magnitude} :
    (signed negative m).less 0 = true ↔ (signedUnits negative m : ℚ) / unitsPerOne < 0 := by
  rw [signedUnits_neg_iff, ofNat_zero, zero, less]
  cases negative <;> simp [place, Magnitude.zero, Magnitude.isZero, Nat.pos_iff_ne_zero]

theorem eq_signed_of_exactValue? {n : Double} {value : ℚ} (isValue : n.exactValue? = some value) :
    ∃ negative m, m.rank < infinityRank ∧ n = signed negative m ∧
      (signedUnits negative m : ℚ) / unitsPerOne = value := by
  cases n with
  | nan => cases isValue
  | signed negative m =>
    rcases Nat.lt_or_eq_of_le m.rank_le with finite | last
    · rw [exactValue?_of_finite finite] at isValue
      exact ⟨negative, m, finite, rfl, Option.some.inj isValue⟩
    · obtain rfl : m = .infinity := Magnitude.ext_rank last
      cases isValue

/-! ## The paths of the text -/

/-- A count within the bounds is what it was before. -/
theorem integerWithin?_ofNat {least greatest count : ℕ} {argument : Double}
    (ordered : least ≤ greatest) (small : greatest ≤ 2 ^ 53)
    (counted : integerWithin? least greatest argument = some count) :
    integerWithin? least greatest (ofNat count) = some count := by
  obtain ⟨-, atLeast, atMost⟩ := (integerWithin?_eq_some_iff ordered small).mp counted
  obtain ⟨m, finite, value, isNat⟩ := exists_ofNat_eq (atMost.trans small)
  refine (integerWithin?_eq_some_iff ordered small).mpr ⟨?_, atLeast, atMost⟩
  rw [isNat, asked?, isNaN, if_neg Bool.false_ne_true, exactValue?_of_finite finite,
    Option.map_some, integerPart_signedUnits, if_neg Bool.false_ne_true, value,
    Nat.mul_div_cancel _ unitsPerOne_pos]

section

attribute [local instance (2000)] instPowNat

variable {argument : Double} {places : ℕ} {negative : Bool} {m : Magnitude}

theorem large_iff :
    10 ^ (21 : ℕ) * unitsPerOne ≤ m.units ↔ (10 : ℚ) ^ 21 ≤ m.units / unitsPerOne := by
  rw [le_div_iff₀ (Nat.cast_pos.mpr unitsPerOne_pos)]
  generalize unitsPerOne = one
  exact_mod_cast Iff.rfl

/-- The bound on sizes is a double, so it is compared with the exact value. -/
theorem bound_atMost_abs_iff :
    (ofNat (10 ^ (21 : ℕ))).atMost (signed negative m).abs = true ↔
      10 ^ (21 : ℕ) * unitsPerOne ≤ m.units := by
  obtain ⟨bound, -, value, isBound⟩ :=
    exists_ofNat_of_exact (IsExact.ten_pow (show 21 ≤ 22 by decide))
  rw [isBound, abs, atMost_iff, signedUnits, signedUnits, if_neg Bool.false_ne_true,
    if_neg Bool.false_ne_true, Int.ofNat_le, value]

theorem toFixed_of_refused (refused : integerWithin? 0 100 argument = none) (n : Double)
    (range : Option SourceRange) :
    toFixed n argument range = .error ⟨.fixedPlacesOutOfRange, range⟩ := by
  rw [toFixed, refused]

theorem toFixed_of_large {n : Double} (counted : integerWithin? 0 100 argument = some places)
    (large : ∀ value, n.exactValue? = some value → 10 ^ 21 ≤ |value|) (range : Option SourceRange) :
    toFixed n argument range = .ok n.text := by
  have own : (!n.isFinite || (ofNat (10 ^ (21 : ℕ))).atMost n.abs) = true := by
    rw [Bool.or_eq_true]
    cases n with
    | nan => exact .inl rfl
    | signed negative m =>
      rcases Nat.lt_or_eq_of_le m.rank_le with finite | last
      · have bound := large _ (exactValue?_of_finite finite negative)
        rw [abs_signedUnits, ← large_iff] at bound
        exact .inr (bound_atMost_abs_iff.mpr bound)
      · obtain rfl : m = .infinity := Magnitude.ext_rank last
        exact .inl rfl
  rw [toFixed, counted]
  exact if_pos own

/-- Below the bound a number takes the way of its opposite or is rounded. -/
theorem toFixed_signed (counted : integerWithin? 0 100 argument = some places)
    (finite : m.rank < infinityRank) (small : m.units < 10 ^ (21 : ℕ) * unitsPerOne)
    (range : Option SourceRange) :
    toFixed (signed negative m) argument range =
      if (signed negative m).less zero then
        return "-" ++ (← toFixed (signed (!negative) m) (ofNat places) range)
      else .ok ((Numeral.fixed false m.units unitsPerOne places).render 10 true) := by
  have few : places < Fixed.exactPlaces := by
    obtain ⟨-, -, within⟩ := (integerWithin?_eq_some_iff (Nat.zero_le 100) (by decide)).mp counted
    rw [Fixed.exactPlaces]
    omega
  have isFinite := isInfinite_eq_false finite
  have rounded := rounded_eq isFinite few
  have own : ¬(!(signed negative m).isFinite ||
      (ofNat (10 ^ (21 : ℕ))).atMost (signed negative m).abs) = true := by
    rw [Bool.or_eq_true, bound_atMost_abs_iff, Double.isFinite, isFinite]
    exact fun large => large.elim Bool.false_ne_true (Nat.not_le_of_lt small)
  rw [toFixed, counted, Numeral.render, ← rounded]
  dsimp only
  rw [if_neg own, abs]
  cases (signed false m).roundExactTie? places <;> rfl

theorem toFixed_of_small (counted : integerWithin? 0 100 argument = some places)
    (finite : m.rank < infinityRank) (small : m.units < 10 ^ (21 : ℕ) * unitsPerOne)
    (range : Option SourceRange) :
    toFixed (signed negative m) argument range =
      .ok ((Numeral.fixed (negative && !m.isZero) m.units unitsPerOne places).render 10 true) := by
  have below : (signed negative m).less zero = (negative && !m.isZero) := by
    rw [Bool.eq_iff_iff, ← signedUnits_neg_iff, ← less_zero_iff, ofNat_zero]
  rw [toFixed_signed counted finite small, below]
  split
  · next minus =>
    have again := integerWithin?_ofNat (Nat.zero_le 100) (by decide) counted
    obtain ⟨rfl, -⟩ := Bool.and_eq_true_iff.mp minus
    have opposite : (signed (!true) m).less zero = false := less_zero_neg (below.trans minus)
    rw [toFixed_signed again finite small, minus, opposite, if_neg Bool.false_ne_true,
      Numeral.fixed, Numeral.fixed, Numeral.render_ofScaled_true]
    rfl
  · next plus => rw [Bool.eq_false_of_not_eq_true plus]

end

theorem exists_toFixed_eq_ok {argument : Double} {places : ℕ}
    (counted : integerWithin? 0 100 argument = some places) (n : Double)
    (range : Option SourceRange) : ∃ text, toFixed n argument range = .ok text := by
  by_cases large : ∀ value, n.exactValue? = some value → 10 ^ 21 ≤ |value|
  · exact ⟨_, toFixed_of_large counted large range⟩
  · push Not at large
    obtain ⟨value, isValue, less⟩ := large
    obtain ⟨negative, m, finite, rfl, rfl⟩ := eq_signed_of_exactValue? isValue
    rw [abs_signedUnits, ← not_le, ← large_iff, Nat.not_le] at less
    exact ⟨_, toFixed_of_small counted finite less range⟩

/-- A count of places other than `0..100` is refused, whatever the number is. Otherwise a number
that is not finite or not below `10^21` has its own text, and any other the numeral of the nearest
multiple, after a minus sign if it is negative. -/
theorem toFixed_rounds_exact_value (n argument : Double) (range : Option SourceRange) :
    (Cause.fixedPlacesOutOfRange.errorClass = .range ∧
      ∀ error, toFixed n argument range = .error error ↔
        error = ⟨.fixedPlacesOutOfRange, range⟩ ∧
          ∀ count, argument.asked? = some count → count < 0 ∨ 100 < count) ∧
    ∀ places : ℕ, places ≤ 100 → argument.asked? = some (places : ℤ) →
      ((∀ value, n.exactValue? = some value → 10 ^ 21 ≤ |value|) →
        toFixed n argument range = .ok n.text) ∧
      ∀ value, n.exactValue? = some value → |value| < 10 ^ 21 →
        ∃ numeral : Numeral, toFixed n argument range = .ok (numeral.render 10 true) ∧
          numeral.IsFixed places ∧ (numeral.negative = true ↔ value < 0) ∧
          IsNearestMultiple (10 ^ (-places : ℤ)) |value| numeral.value := by
  have small : 100 ≤ 2 ^ 53 := by decide
  refine ⟨⟨rfl, fun error => ?_⟩, fun places bounded asked => ?_⟩
  · have refused := integerWithin?_eq_none_iff (Nat.zero_le 100) small argument
    rw [Nat.cast_zero, Nat.cast_ofNat] at refused
    cases counted : integerWithin? 0 100 argument with
    | none =>
      rw [toFixed_of_refused counted, Except.error.injEq, eq_comm]
      exact ⟨fun raised => ⟨raised, refused.mp counted⟩, And.left⟩
    | some places =>
      have accepted : ¬ ∀ count, argument.asked? = some count → count < 0 ∨ 100 < count := by
        rw [← refused, counted]
        exact Option.some_ne_none places
      refine ⟨fun raised => ?_, fun claimed => absurd claimed.2 accepted⟩
      obtain ⟨text, written⟩ := exists_toFixed_eq_ok counted n range
      cases written.symm.trans raised
  · have counted := (integerWithin?_eq_some_iff (Nat.zero_le 100) small).mpr
      ⟨asked, Nat.zero_le places, bounded⟩
    refine ⟨fun large => toFixed_of_large counted large range, fun value isValue less => ?_⟩
    obtain ⟨negative, m, finite, rfl, rfl⟩ := eq_signed_of_exactValue? isValue
    rw [abs_signedUnits, ← not_le, ← large_iff, Nat.not_le] at less
    obtain ⟨isFixed, -⟩ := Numeral.ofScaled_digits (negative && !m.isZero)
      (roundHalfUp (m.units * 10 ^ places) unitsPerOne) places
    refine ⟨_, toFixed_of_small counted finite less range, isFixed, signedUnits_neg_iff.symm, ?_⟩
    rw [abs_signedUnits]
    exact Numeral.fixed_nearest _ _ places unitsPerOne_pos

/-- The tie of `-1.125` between two places goes away from zero, and the argument `2.9` asks for two. -/
theorem toFixed_rounds_exact_value_tie :
    let n := ofBits 0xbff2000000000000
    let argument := ofBits 0x4007333333333333
    argument.asked? = some 2 ∧ nan.exactValue? = none ∧ toFixed nan argument none = .ok nan.text ∧
      n.exactValue? = some (-9 / 8) ∧ |(-9 / 8 : ℚ)| < 10 ^ 21 ∧
        ∃ numeral : Numeral, toFixed n argument none = .ok (numeral.render 10 true) ∧
          numeral.IsFixed 2 ∧ (numeral.negative = true ↔ (-9 / 8 : ℚ) < 0) ∧
          IsNearestMultiple (10 ^ (-(2 : ℕ) : ℤ)) |(-9 / 8 : ℚ)| numeral.value := by
  intro n argument
  have asked : argument.asked? = some 2 := by decide +kernel
  have isValue : n.exactValue? = some (-9 / 8) := by decide +kernel
  have small : |(-9 / 8 : ℚ)| < 10 ^ 21 := by decide +kernel
  obtain ⟨-, large⟩ := toFixed_rounds_exact_value nan argument none
  obtain ⟨-, rounds⟩ := toFixed_rounds_exact_value n argument none
  exact ⟨asked, rfl, (large 2 (by decide) asked).1 (by simp [exactValue?]), isValue, small,
    (rounds 2 (by decide) asked).2 _ isValue small⟩

end Double

end ScriptCore
