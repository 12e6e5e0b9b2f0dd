import ScriptCore.Proofs.Number.Fixed
import ScriptCore.Proofs.Number.Radix.Reading

/-! # Exact digits in binary radices

In a radix that is a power of two a finite double has a finite expansion, however small or great it
is, and its numeral is that expansion. The digits of a numeral are determined by its value, so it is
enough that the value is exact: a digit that was rounded up, or an end that came early, would change
it.
-/

namespace ScriptCore

open Magnitude (IsExact unitsPerOne unitsPerOne_pos infinityRank)

/-- A digit of a natural, by the powers of the base around it. -/
theorem getElem_eq_ofDigits {base : ℕ} (large : 1 < base) {digits : List ℕ}
    (each : ∀ digit ∈ digits, digit < base) {place : ℕ} (inside : place < digits.length) :
    digits[place] = ofDigits base digits / base ^ (digits.length - (place + 1)) % base := by
  have split : digits = digits.take place ++ [digits[place]] ++ digits.drop (place + 1) := by simp
  have later := ofDigits_lt large fun digit (isLater : digit ∈ digits.drop (place + 1)) =>
    each digit (List.mem_of_mem_drop isLater)
  have single : ofDigits base [digits[place]] = digits[place] := by simp [ofDigits]
  have value := ofDigits_append base (digits.take place ++ [digits[place]]) (digits.drop (place + 1))
  rw [← split, ofDigits_append, single, List.length_singleton, pow_one] at value
  rw [List.length_drop] at later value
  rw [value, Nat.add_comm, Nat.add_mul_div_right _ _ (Nat.pow_pos (by omega)),
    Nat.div_eq_of_lt later, Nat.zero_add, Nat.add_comm, Nat.add_mul_mod_self_right,
    Nat.mod_eq_of_lt (each _ (List.getElem_mem inside))]

namespace Numeral

variable {radix : ℕ} {numeral : Numeral}

/-- The rational that a numeral denotes in a radix. -/
def signedValueIn (radix : ℕ) (numeral : Numeral) : ℚ :=
  if numeral.negative then -numeral.valueIn radix else numeral.valueIn radix

theorem LegibleIn.valueIn_eq (legible : numeral.LegibleIn radix) :
    numeral.valueIn radix =
      ofDigits radix (numeral.whole ++ numeral.fraction) / (radix ^ numeral.fraction.length : ℕ) := by
  rw [valueIn, scale, legible.exponent, Option.getD_none, zero_sub, zpow_neg, zpow_natCast,
    Nat.cast_pow, div_eq_mul_inv]

/-- The digits after the point are those of the expansion of the value. -/
theorem LegibleIn.fraction_eq (large : 1 < radix) (legible : numeral.LegibleIn radix) :
    numeral.fraction = (List.range numeral.fraction.length).map fun place =>
      ⌊numeral.valueIn radix * radix ^ (place + 1)⌋₊ % radix := by
  have each : ∀ digit ∈ numeral.whole ++ numeral.fraction, digit < radix :=
    List.forall_mem_append.mpr ⟨legible.whole, legible.fraction⟩
  apply List.ext_getElem
  · rw [List.length_map, List.length_range]
  · intro place inside _
    have placed : numeral.whole.length + place < (numeral.whole ++ numeral.fraction).length := by
      rw [List.length_append]
      omega
    have digit := getElem_eq_ofDigits large each placed
    rw [List.getElem_append_right (Nat.le_add_right ..)] at digit
    obtain ⟨later, length⟩ := Nat.exists_eq_add_of_lt inside
    have shift : numeral.valueIn radix * radix ^ (place + 1) =
        (ofDigits radix (numeral.whole ++ numeral.fraction) : ℕ) / (radix ^ later : ℕ) := by
      have power : (radix : ℚ) ^ (place + 1) ≠ 0 :=
        pow_ne_zero _ (Nat.cast_ne_zero.mpr (by omega))
      rw [legible.valueIn_eq, length, Nat.add_right_comm, pow_add, Nat.cast_mul, Nat.cast_pow,
        Nat.cast_pow, div_mul_eq_mul_div, mul_comm, mul_div_mul_left _ _ power]
    have remaining : (numeral.whole ++ numeral.fraction).length -
        (numeral.whole.length + place + 1) = later := by
      rw [List.length_append]
      omega
    simp only [Nat.add_sub_cancel_left] at digit
    rw [List.getElem_map, List.getElem_range, shift, Rat.natFloor_natCast_div_natCast, digit,
      remaining]

/-- The numeral of a finite double in a binary radix. -/
theorem inRadix_of_binary {bits : ℕ} (large : 1 < 2 ^ bits) (small : 2 ^ bits ≤ 36)
    {m : Magnitude} (finite : m.rank < infinityRank) (negative : Bool) :
    let numeral := inRadix (2 ^ bits) (.signed negative m)
    numeral.negative = (Double.signed negative m).less 0 ∧ numeral.LegibleIn (2 ^ bits) ∧
      numeral.whole = digitsOf (2 ^ bits) (m.units / unitsPerOne) ∧
      numeral.valueIn (2 ^ bits) = m.units / unitsPerOne := by
  obtain ⟨each, whole, bounded, -⟩ := Magnitude.readBack_binary large small finite
  obtain ⟨-, exact⟩ := fractionPart_exact large small finite
  rw [inRadix_eq large small finite whole bounded]
  refine ⟨rfl, legibleIn_digitsOf large each _ _, ?_, ?_⟩
  · rw [Magnitude.carried_eq_false exact (by omega), Bool.toNat_false, Nat.add_zero]
  · rw [eq_div_iff (Nat.cast_ne_zero.mpr unitsPerOne_pos.ne'),
      valueIn_eq (m := m) (by omega) (ofDigits_digitsOf large _) rfl rfl]
    exact Magnitude.digitUnits_of_exact (by omega) exact

end Numeral

namespace Double

theorem binary_bounds : ∀ radix ∈ [2, 4, 8, 16, 32], 1 < radix ∧ radix ≤ 36 ∧ radix ≠ 10 := by
  decide

theorem exists_bits : ∀ radix ∈ [2, 4, 8, 16, 32], ∃ bits < 6, radix = 2 ^ bits := by
  decide

/-- In a binary radix the digits of a finite number are those of the expansion of its exact value,
and there are as many of them as it takes. -/
theorem textInRadix_of_binary {n : Double} {value : ℚ} (isValue : n.exactValue? = some value)
    {radix : ℕ} (binary : radix ∈ [2, 4, 8, 16, 32]) :
    ∃ numeral : Numeral, n.textInRadix radix = numeral.render radix true ∧
      Numeral.readIn? radix (n.textInRadix radix).toList = some numeral ∧
      numeral.signedValueIn radix = value ∧ (numeral.negative = true ↔ value < 0) ∧
      numeral.whole = digitsOf radix ⌊|value|⌋₊ ∧
      numeral.fraction = (List.range numeral.fraction.length).map fun place =>
        ⌊|value| * radix ^ (place + 1)⌋₊ % radix := by
  obtain ⟨large, small, notTen⟩ := binary_bounds radix binary
  obtain ⟨bits, -, rfl⟩ := exists_bits radix binary
  obtain ⟨negative, m, finite, rfl, rfl⟩ := eq_signed_of_exactValue? isValue
  have isFinite : (signed negative m).isFinite = true := by
    rw [Double.isFinite, isInfinite_eq_false finite, Bool.not_false]
  obtain ⟨sign, legible, whole, size⟩ :=
    Numeral.inRadix_of_binary large small finite negative
  have fraction := legible.fraction_eq large
  have text : (signed negative m).textInRadix (2 ^ bits) =
      (Numeral.inRadix (2 ^ bits) (signed negative m)).render (2 ^ bits) true := by
    rw [textInRadix, if_neg (by simp [notTen, isFinite])]
  rw [text]
  generalize Numeral.inRadix (2 ^ bits) (signed negative m) = numeral at *
  have negativeIff : numeral.negative = true ↔ (signedUnits negative m : ℚ) / unitsPerOne < 0 := by
    rw [sign, less_zero_iff]
  rw [← abs_signedUnits negative m] at size
  refine ⟨numeral, rfl, ?_, ?_, negativeIff, ?_, ?_⟩
  · rw [Numeral.render, String.toList_ofList, Numeral.readIn?_chars small notTen legible]
  · rw [Numeral.signedValueIn, size]
    split
    · next below => rw [abs_of_neg (negativeIff.mp below), neg_neg]
    · next atLeast => rw [abs_of_nonneg (not_lt.mp fun below => atLeast (negativeIff.mpr below))]
  · rw [whole, abs_signedUnits, Rat.natFloor_natCast_div_natCast]
  · rwa [size] at fraction

/-- Minus three of the least subnormals, whose margin is not half the gap but all of it, have 215
digits in the radix 32. -/
theorem textInRadix_of_binary_subnormal :
    let n := ofBits 0x8000000000000003
    n.exactValue? = some (-3 / 2 ^ 1074) ∧ 32 ∈ [2, 4, 8, 16, 32] ∧
      ∃ numeral : Numeral, n.textInRadix 32 = numeral.render 32 true ∧
        Numeral.readIn? 32 (n.textInRadix 32).toList = some numeral ∧
        numeral.signedValueIn 32 = -3 / 2 ^ 1074 ∧
        (numeral.negative = true ↔ (-3 / 2 ^ 1074 : ℚ) < 0) ∧
        numeral.whole = digitsOf 32 ⌊|(-3 / 2 ^ 1074 : ℚ)|⌋₊ ∧
        numeral.fraction = (List.range numeral.fraction.length).map fun place =>
          ⌊|(-3 / 2 ^ 1074 : ℚ)| * (32 : ℕ) ^ (place + 1)⌋₊ % 32 := by
  intro n
  have isValue : n.exactValue? = some (-3 / 2 ^ 1074) := by decide +kernel
  have binary : 32 ∈ [2, 4, 8, 16, 32] := by decide
  exact ⟨isValue, binary, textInRadix_of_binary isValue binary⟩

end Double

end ScriptCore
