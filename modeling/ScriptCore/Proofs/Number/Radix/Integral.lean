import ScriptCore.Proofs.Number.Fixed
import ScriptCore.Proofs.Number.Minimal
import ScriptCore.Proofs.Number.Radix.Reading

/-! # Integers in a radix

Up to `2^53` every integer is written as its digits, in ten as in any other radix. Repeated division
gives them outright. In ten they are those of the shortest decimal: a magnitude attracts no other
whole number, and the search does not go beyond the grid of the whole numbers, on which it has a
point.
-/

namespace ScriptCore

open Magnitude (IsExact unitsPerOne unitsPerOne_pos infinityRank)

variable {m : Magnitude} {n : Nat}

namespace Magnitude

/-! ## Whole numbers and their shortest decimals -/

/-- Below `2^53` a whole number attracts no other. -/
theorem Attracts.whole_eq (value : m.units = n * unitsPerOne) (small : n < 2 ^ 53) {k : Nat}
    (attracted : m.Attracts (k * unitsPerOne : Nat)) : k = n := by
  have less := attracted.lt_of_whole_lt value (.ones (Nat.le_refl _)) small
  have same := attracted.units_eq (.ones less.le)
  exact Nat.eq_of_mul_eq_mul_right unitsPerOne_pos (same.symm.trans value)

theorem rank_pos_of_whole (value : m.units = n * unitsPerOne) (positive : 0 < n) : 0 < m.rank := by
  rw [← unitsOfRank_strictMono.lt_iff_lt]
  change _ < m.units
  rw [value]
  exact Nat.mul_pos positive unitsPerOne_pos

theorem onGrid?_exponent {tie : Tie} {exponent : Int} {d : Decimal}
    (found : m.onGrid? tie exponent = some d) : d.exponent = exponent := by
  unfold onGrid? at found
  dsimp only at found
  split_ifs at found <;> obtain rfl := Option.some.inj found <;> rfl

theorem leadingPower_nonneg (finite : m.rank < infinityRank) (atLeast : unitsPerOne ≤ m.units) :
    0 ≤ m.leadingPower := by
  have bound := units_lt_leadingPower finite
  have unit : (0 : ℚ) < unitsPerOne := Nat.cast_pos.mpr unitsPerOne_pos
  have least : (unitsPerOne : ℚ) ≤ m.units := Nat.cast_le.mpr atLeast
  have one : (10 : ℚ) ^ (0 : Int) < 10 ^ (m.leadingPower + 1) := by
    rw [zpow_zero]
    exact lt_of_mul_lt_mul_right (by linarith) unit.le
  have order := (zpow_lt_zpow_iff_right₀ (by decide)).mp one
  exact Int.lt_add_one_iff.mp order

theorem finite_of_whole (value : m.units = n * unitsPerOne) (bounded : n ≤ 2 ^ 53) :
    m.rank < infinityRank := by
  rw [← unitsOfRank_strictMono.lt_iff_lt, unitsOfRank_infinityRank]
  change m.units < _
  rw [value]
  exact (IsExact.ones bounded).lt

/-- A decimal that denotes a natural, its zeros in the exponent. -/
def IsWhole (d : Decimal) (n : Nat) : Prop :=
  ∃ zeros : Nat, d.exponent = zeros ∧ d.coefficient * 10 ^ zeros = n

/-- The shortest decimal of a whole number has no digits after the point. -/
theorem shortest_exponent_nonneg (value : m.units = n * unitsPerOne) (positive : 0 < n)
    (finite : m.rank < infinityRank) (tie : Tie) : 0 ≤ (m.shortest tie).exponent := by
  have least : unitsPerOne ≤ m.units := by
    rw [value]
    exact Nat.le_mul_of_pos_left _ positive
  have nonzero := rank_pos_of_whole value positive
  have leading := leadingPower_nonneg finite least
  obtain ⟨more, d, -, point, same, missed⟩ := exists_onGrid? nonzero tie
  -- The number itself lies on the grid of the whole numbers.
  have whole : m.Attracts (Decimal.value ⟨n, 0⟩ * unitsPerOne) := by
    have units : Decimal.value ⟨n, 0⟩ * unitsPerOne = m.units := by
      rw [Decimal.value, zpow_zero, mul_one, value, Nat.cast_mul]
    rw [units]
    exact m.attracts_units
  obtain ⟨found, isFound, -⟩ := onGrid?_of_attracts tie whole
  have early : more ≤ m.leadingPower.toNat := by
    refine Nat.le_of_not_lt fun late => ?_
    have none := missed _ late
    rw [Int.toNat_of_nonneg leading, sub_self, isFound] at none
    cases none
  have onGrid := onGrid?_exponent point
  have stripped := d.stripZeros_exponent_le 17
  rw [same]
  generalize m.leadingPower = power at *
  omega

theorem shortest_of_lt (value : m.units = n * unitsPerOne) (positive : 0 < n) (small : n < 2 ^ 53)
    (tie : Tie) : IsWhole (m.shortest tie) n := by
  have nonzero := rank_pos_of_whole value positive
  have attracted := shortest_attracts nonzero tie
  obtain ⟨zeros, isExponent⟩ := Int.eq_ofNat_of_zero_le
    (shortest_exponent_nonneg value positive (finite_of_whole value small.le) tie)
  refine ⟨zeros, isExponent, ?_⟩
  rw [Decimal.value, isExponent, zpow_natCast] at attracted
  apply Attracts.whole_eq value small
  exact_mod_cast attracted

/-- The shortest decimal of a whole number up to `2^53` is that number. -/
theorem shortest_of_whole (value : m.units = n * unitsPerOne) (positive : 0 < n)
    (bounded : n ≤ 2 ^ 53) (tie : Tie) : IsWhole (m.shortest tie) n := by
  rcases Nat.lt_or_eq_of_le bounded with small | rfl
  · exact shortest_of_lt value positive small tie
  · -- The next magnitude is two further, so the tie with the number between has to be looked at.
    have last : unitsOfRank 0x4340000000000000 = 2 ^ 53 * unitsPerOne := unitsOfRank_two_pow 53
    obtain rfl : m = ⟨0x4340000000000000, by decide⟩ :=
      ext_rank (unitsOfRank_strictMono.injective (value.trans last.symm))
    refine ⟨0, ?_, ?_⟩ <;> cases tie <;> decide +kernel

end Magnitude

/-! ## The text of an integer -/

/-- The digits of a natural in a radix, after a minus sign or not. -/
def Numeral.natural (radix : Nat) (negative : Bool) (n : Nat) : Numeral :=
  ⟨negative, digitsOf radix n, [], none⟩

theorem Layout.numeral_of_whole {layout : Layout} (least : layout.leastPoint ≤ 1) {places : Nat}
    (some : 0 < places) (greatest : places ≤ layout.greatestPoint)
    (plain : layout.zeroFraction = false) (negative : Bool) {coefficient zeros : Nat}
    (positive : 0 < coefficient) (small : coefficient * 10 ^ zeros < 10 ^ places) :
    let decimal : Decimal := ⟨coefficient, zeros⟩
    layout.numeral negative decimal.digits decimal.point =
      .natural 10 negative (coefficient * 10 ^ zeros) := by
  intro decimal
  have digits := digitsOf_mul_pow (show 1 < 10 by decide) positive zeros
  have length := length_digitsOf_le (by decide) some small
  have first := decimal.digits_length_pos
  have point : decimal.point = decimal.digits.length + zeros := rfl
  have padding : decimal.point.toNat - decimal.digits.length = zeros := by omega
  rw [digits, List.length_append, List.length_replicate] at length
  change decimal.digits.length + zeros ≤ places at length
  rw [Layout.numeral, if_pos (by omega), if_pos (by omega), plain, padding]
  exact congrArg (Numeral.mk negative · [] none) digits.symm

namespace Double

theorem text_of_whole (value : m.units = n * unitsPerOne) (bounded : n ≤ 2 ^ 53) (negative : Bool) :
    (signed negative m).text = (Numeral.natural 10 ((signed negative m).less 0) n).render 10 true := by
  have finite := Magnitude.finite_of_whole value bounded
  rcases Nat.eq_zero_or_pos n with rfl | positive
  · rw [Nat.zero_mul] at value
    obtain rfl : m = .zero := Magnitude.ext_rank (Magnitude.unitsOfRank_strictMono.injective value)
    cases negative <;> decide +kernel
  · have nonzero := Magnitude.rank_pos_of_whole value positive
    obtain ⟨zeros, exponent, whole⟩ := Magnitude.shortest_of_whole value positive bounded layout.tie
    have some := Layout.shortest_coefficient_pos nonzero layout.tie
    have small : n < 10 ^ 16 := bounded.trans_lt (by decide)
    rw [text_eq_write negative nonzero finite, Layout.write_eq, Layout.written, less_zero nonzero]
    generalize m.shortest layout.tie = decimal at *
    obtain ⟨coefficient, power⟩ := decimal
    obtain rfl : power = zeros := exponent
    obtain rfl := whole
    rw [Layout.numeral_of_whole (by decide) (show 0 < 16 by decide) (by decide) rfl negative some small]
    rfl

end Double

/-- Repeated division gives the digits of a whole number, and its fraction none. -/
theorem Numeral.inRadix_of_whole (value : m.units = n * unitsPerOne) (bounded : n ≤ 2 ^ 53)
    {radix : Nat} (large : 1 < radix) (small : radix ≤ 36) (negative : Bool) :
    inRadix radix (.signed negative m) = .natural radix ((Double.signed negative m).less 0) n := by
  have finite := Magnitude.finite_of_whole value bounded
  have whole : m.units % unitsPerOne = 0 := by rw [value, Nat.mul_mod_left]
  have quotient : m.units / unitsPerOne = n := by rw [value, Nat.mul_div_cancel _ unitsPerOne_pos]
  have start := carried_eq finite false
  have enough : n < radix ^ (1099 + 1) :=
    calc n ≤ 2 ^ 53 := bounded
      _ < 2 ^ (1099 + 1) := pow_lt_pow_right₀ one_lt_two (by decide)
      _ ≤ radix ^ (1099 + 1) := pow_le_pow_left₀ (Nat.zero_le 2) large _
  rw [quotient, Bool.toNat_false, Nat.add_zero] at start
  rw [inRadix_signed, fractionPart_of_whole finite whole]
  dsimp only
  rw [start, dropInexact_of_le large small bounded]
  dsimp only
  rw [wholeDigits_eq large small (.of_le bounded) enough, List.replicate_zero, List.append_nil]
  rfl

namespace Double

theorem textInRadix_of_whole (value : m.units = n * unitsPerOne) (bounded : n ≤ 2 ^ 53)
    {radix : Nat} (large : 1 < radix) (small : radix ≤ 36) (negative : Bool) :
    (signed negative m).textInRadix radix =
      (Numeral.natural radix ((signed negative m).less 0) n).render radix true := by
  have finite := Magnitude.finite_of_whole value bounded
  have isFinite : (signed negative m).isFinite = true := by
    rw [Double.isFinite, isInfinite_eq_false finite, Bool.not_false]
  rw [textInRadix]
  split
  · next ten =>
    obtain rfl : radix = 10 := by simpa [isFinite] using ten
    exact text_of_whole value bounded negative
  · rw [Numeral.inRadix_of_whole value bounded large small]

/-- The units of the integer that a double is. -/
theorem units_of_integer {negative : Bool} {value : ℤ}
    (isValue : (signedUnits negative m : ℚ) / unitsPerOne = value) :
    m.units = value.natAbs * unitsPerOne := by
  have size := abs_signedUnits negative m
  have divides : (unitsPerOne : ℚ) ≠ 0 := Nat.cast_ne_zero.mpr unitsPerOne_pos.ne'
  rw [isValue, ← Int.cast_abs, Int.abs_eq_natAbs, Int.cast_natCast, eq_div_iff divides] at size
  exact_mod_cast size.symm

/-- Which digit characters there are, in the order of the digits. -/
theorem digitChar_eq_getElem? (radix : ℕ) (small : radix ≤ 36) (digit : ℕ)
    (isDigit : digit < radix) :
    "0123456789abcdefghijklmnopqrstuvwxyz".toList[digit]? = some (digitChar radix digit) := by
  have listed : ∀ digit < 36,
      "0123456789abcdefghijklmnopqrstuvwxyz".toList[digit]? = some (digitChar 36 digit) := by
    decide
  rw [Numeral.digitChar_eq small isDigit]
  exact listed digit (by omega)

/-- The text of an integer up to `2^53` is its canonical numeral, in ten as in any other radix: its
sign if it is negative, and then its digits, which are the only ones of that value without zeros in
front. -/
theorem textInRadix_of_integer {n : Double} {value : ℤ} (isValue : n.exactValue? = some (value : ℚ))
    (bounded : |value| ≤ 2 ^ 53) {radix : ℕ} (large : 2 ≤ radix) (small : radix ≤ 36) :
    ∃ digits : List ℕ,
      n.textInRadix radix =
        String.ofList ((if value < 0 then ['-'] else []) ++ digits.map (digitChar radix)) ∧
      ofDigits radix digits = value.natAbs ∧ digits ≠ [] ∧
      (digits.head? = some 0 → digits = [0]) ∧
      ∀ digit ∈ digits, digit < radix ∧
        "0123456789abcdefghijklmnopqrstuvwxyz".toList[digit]? = some (digitChar radix digit) := by
  obtain ⟨negative, m, -, rfl, exact⟩ := eq_signed_of_exactValue? isValue
  have units := units_of_integer exact
  have size : value.natAbs ≤ 2 ^ 53 := by
    rw [Int.abs_eq_natAbs] at bounded
    exact_mod_cast bounded
  have sign : (signed negative m).less 0 = decide (value < 0) := by
    rw [Bool.eq_iff_iff, decide_eq_true_iff, less_zero_iff, exact, Int.cast_lt_zero]
  have each := digitsOf_lt large value.natAbs
  refine ⟨digitsOf radix value.natAbs, ?_, ofDigits_digitsOf large _, digitsOf_ne_nil large _,
    eq_zero_of_head?_digitsOf large, fun digit isDigit => ?_⟩
  · rw [textInRadix_of_whole units size large small, sign]
    simp [Numeral.render, Numeral.natural, Numeral.chars]
  · have less := each digit isDigit
    exact ⟨less, digitChar_eq_getElem? radix small digit less⟩

/-- Minus `2^53`, beyond which not every integer is a double, in ten. -/
theorem textInRadix_of_integer_least :
    let n := ofBits 0xc340000000000000
    n.exactValue? = some ((-2 ^ 53 : ℤ) : ℚ) ∧ |(-2 ^ 53 : ℤ)| ≤ 2 ^ 53 ∧ 2 ≤ 10 ∧ 10 ≤ 36 ∧
      ∃ digits : List ℕ,
        n.textInRadix 10 =
          String.ofList ((if (-2 ^ 53 : ℤ) < 0 then ['-'] else []) ++ digits.map (digitChar 10)) ∧
        ofDigits 10 digits = (-2 ^ 53 : ℤ).natAbs ∧ digits ≠ [] ∧
        (digits.head? = some 0 → digits = [0]) ∧
        ∀ digit ∈ digits, digit < 10 ∧
          "0123456789abcdefghijklmnopqrstuvwxyz".toList[digit]? = some (digitChar 10 digit) := by
  intro n
  have isValue : n.exactValue? = some ((-2 ^ 53 : ℤ) : ℚ) := by decide +kernel
  have bounded : |(-2 ^ 53 : ℤ)| ≤ 2 ^ 53 := by decide
  exact ⟨isValue, bounded, by decide, by decide,
    textInRadix_of_integer isValue bounded (by decide) (by decide)⟩

end Double

end ScriptCore
