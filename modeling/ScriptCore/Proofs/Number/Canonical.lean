import ScriptCore.Proofs.Number.Arithmetic
import ScriptCore.Proofs.Number.Grammar
import ScriptCore.Proofs.Number.Minimal
import ScriptCore.Proofs.Number.Scientific

/-! # Canonical number text

The text of a finite number other than zero is a numeral of the grammar without anything superfluous:
no zeros that could be left out, no bare point, and an exponent only where the point would be far
from the digits. Its value is that of the shortest decimal, so the size of that decimal tells which
form the text has.
-/

namespace ScriptCore

open Magnitude (unitsPerOne infinityRank)

/-! ## The size of a decimal -/

namespace Decimal

variable {d : Decimal}

theorem ten_pow_le_value (positive : 0 < d.coefficient) : (10 : ℚ) ^ (d.point - 1) ≤ d.value := by
  have least := pow_length_digitsOf_le (show 1 < 10 by decide) positive
  have scale : (0 : ℚ) < 10 ^ d.exponent := by positivity
  rw [value, point, zpow_sub_one₀ (by decide), zpow_add₀ (by decide), zpow_natCast,
    ← div_eq_mul_inv, div_le_iff₀ (by decide), mul_right_comm]
  exact mul_le_mul_of_nonneg_right (by exact_mod_cast Nat.mul_comm .. ▸ least) scale.le

theorem value_lt_ten_pow (d : Decimal) : d.value < (10 : ℚ) ^ d.point := by
  have scale : (0 : ℚ) < 10 ^ d.exponent := by positivity
  rw [value, point, zpow_add₀ (by decide), zpow_natCast]
  exact mul_lt_mul_of_pos_right (by exact_mod_cast d.lt_ten_pow_length) scale

/-- The point tells between which powers of ten a decimal lies. -/
theorem value_lt_iff (positive : 0 < d.coefficient) (power : ℤ) :
    d.value < 10 ^ power ↔ d.point ≤ power := by
  constructor
  · intro less
    have order := (zpow_lt_zpow_iff_right₀ (by decide)).mp ((ten_pow_le_value positive).trans_lt less)
    omega
  · intro within
    exact d.value_lt_ten_pow.trans_le (zpow_le_zpow_right₀ (by decide) within)

/-- A decimal whose last digit is not zero is a natural only if that digit is before the point. -/
theorem exists_nat_iff (stripped : d.coefficient % 10 ≠ 0) :
    (∃ n : ℕ, d.value = n) ↔ 0 ≤ d.exponent := by
  constructor
  · rintro ⟨n, whole⟩
    refine Int.not_lt.mp fun negative => stripped ?_
    obtain ⟨places, isExponent⟩ := Int.eq_negSucc_of_lt_zero negative
    rw [value, isExponent, zpow_negSucc, ← div_eq_mul_inv, div_eq_iff (by positivity)] at whole
    have multiple : d.coefficient = n * 10 ^ (places + 1) := by exact_mod_cast whole
    rw [multiple, Nat.pow_succ, ← Nat.mul_assoc, Nat.mul_mod_left]
  · intro nonnegative
    obtain ⟨zeros, isExponent⟩ := Int.eq_ofNat_of_zero_le nonnegative
    refine ⟨d.coefficient * 10 ^ zeros, ?_⟩
    rw [value, isExponent, zpow_natCast, Nat.cast_mul, Nat.cast_pow, Nat.cast_ofNat]

theorem getLast?_digits (d : Decimal) : d.digits.getLast? = some (d.coefficient % 10) := by
  rw [digits, digitsOf_eq_div (by decide)]
  split <;> simp

end Decimal

/-! ## The form of a numeral -/

/-- Decimal digits as those of a form. -/
def formDigits (digits : List ℕ) (each : ∀ digit ∈ digits, digit < 10) : List (Fin 10) :=
  digits.pmap Fin.mk each

section

variable {digits : List ℕ} (each : ∀ digit ∈ digits, digit < 10)

theorem formDigits_val : (formDigits digits each).map Fin.val = digits := by
  rw [formDigits, List.map_pmap]
  simp

theorem digitChars_formDigits : digitChars (formDigits digits each) = digits.map (digitChar 10) := by
  rw [digitChars, formDigits_val]

theorem formDigits_eq_nil_iff : formDigits digits each = [] ↔ digits = [] := by
  simp [formDigits]

theorem head?_formDigits_eq_zero_iff :
    (formDigits digits each).head? = some 0 ↔ digits.head? = some 0 := by
  cases digits <;> simp [formDigits, Fin.ext_iff]

theorem getLast?_formDigits (nonzero : digits.getLast? ≠ some 0) :
    (formDigits digits each).getLast? ≠ some 0 := by
  intro zero
  have last := congrArg (Option.map Fin.val) zero
  rw [← List.getLast?_map, formDigits_val] at last
  exact nonzero last

end

/-- Nothing in the text can be left out or written more simply. -/
structure DecimalForm.IsCanonical (form : DecimalForm) : Prop where
  unmarked : form.sign ≠ .plus
  whole_ne_nil : form.whole ≠ []
  leading : form.whole.head? = some 0 → form.whole = [0]
  fraction : ∀ digits ∈ form.fraction, digits ≠ [] ∧ digits.getLast? ≠ some 0
  exponent : ∀ exponent ∈ form.exponent, exponent.capital = false ∧ exponent.sign ≠ .absent ∧
    exponent.digits.head? ≠ some 0 ∧ ∃ digit, form.whole = [digit] ∧ digit ≠ 0

/-- The exponent with a sign in any case. -/
def ExponentForm.signed (exponent : ℤ) : ExponentForm where
  capital := false
  sign := if exponent < 0 then .minus else .plus
  digits := formDigits (digitsOf 10 exponent.natAbs) (digitsOf_lt (by decide) _)
  digits_ne_nil := by
    rw [Ne, formDigits_eq_nil_iff]
    exact digitsOf_ne_nil (by decide) _

theorem ExponentForm.signed_chars (exponent : ℤ) :
    (signed exponent).chars = 'e' :: Numeral.renderExponent true exponent := by
  rw [chars, signed, digitChars_formDigits, Numeral.renderExponent]
  split <;> rfl

theorem ExponentForm.signed_value (exponent : ℤ) : (signed exponent).value = exponent := by
  have size : digitsValue (signed exponent).digits = exponent.natAbs := by
    rw [digitsValue, signed, formDigits_val, ofDigits_digitsOf (by decide)]
  rw [value, size, SignMark.apply, signed]
  split <;> simp only [SignMark.isMinus, if_true, if_false, Bool.false_eq_true] <;> omega

namespace Numeral

variable {numeral : Numeral}

/-- What it takes of a numeral to be written canonically. -/
structure IsPlain (numeral : Numeral) : Prop extends IsStrict numeral where
  trailing : numeral.fraction.getLast? ≠ some 0
  scientific : ∀ exponent ∈ numeral.exponent, exponent ≠ 0 ∧
    ∃ digit, numeral.whole = [digit] ∧ digit ≠ 0

/-- The form in which a numeral is written. -/
def Legible.form (legible : numeral.Legible) : DecimalForm where
  sign := if numeral.negative then .minus else .absent
  whole := formDigits numeral.whole legible.whole
  fraction :=
    if numeral.fraction = [] then none else some (formDigits numeral.fraction legible.fraction)
  exponent := numeral.exponent.map .signed
  digits_ne_nil := .inl ((formDigits_eq_nil_iff _).not.mpr legible.whole_ne_nil)

theorem Legible.form_fraction_iff (legible : numeral.Legible) :
    legible.form.fraction = none ↔ numeral.fraction = [] := by
  simp [form]

theorem Legible.form_exponent_iff (legible : numeral.Legible) :
    legible.form.exponent = none ↔ numeral.exponent = none :=
  Option.map_eq_none_iff

theorem Legible.form_fractionChars (legible : numeral.Legible) :
    legible.form.fractionChars = fractionChars numeral.fraction := by
  rw [DecimalForm.fractionChars, fractionChars, form]
  by_cases none : numeral.fraction = []
  · simp [none, pointChars]
  · simp [none, pointChars, digitChars_formDigits]

theorem Legible.form_exponentChars (legible : numeral.Legible) :
    legible.form.exponentChars = exponentChars true numeral.exponent := by
  rw [DecimalForm.exponentChars, form]
  cases numeral.exponent with
  | none => rfl
  | some exponent => exact ExponentForm.signed_chars exponent

theorem Legible.form_chars (legible : numeral.Legible) :
    legible.form.chars = numeral.chars 10 true := by
  have sign : legible.form.sign.chars = if numeral.negative then ['-'] else [] := by
    rw [form]
    split <;> rfl
  have whole : digitChars legible.form.whole = numeral.whole.map (digitChar 10) :=
    digitChars_formDigits legible.whole
  rw [chars_eq, DecimalForm.chars, sign, whole, legible.form_fractionChars,
    legible.form_exponentChars]

theorem Legible.form_value (legible : numeral.Legible) : legible.form.value = numeral.value := by
  have fraction : (legible.form.fraction.getD []).map Fin.val = numeral.fraction := by
    rw [form]
    by_cases none : numeral.fraction = []
    · simp [none]
    · simp [none, formDigits_val]
  have whole : legible.form.whole.map Fin.val = numeral.whole := formDigits_val legible.whole
  have exponent : legible.form.exponent.elim 0 ExponentForm.value = numeral.exponent.getD 0 := by
    rw [form]
    cases numeral.exponent with
    | none => rfl
    | some exponent => exact ExponentForm.signed_value exponent
  rw [DecimalForm.value, DecimalForm.scale, DecimalForm.digits, digitsValue, List.map_append, whole,
    fraction, exponent, value, scale, ← fraction, List.length_map]

theorem IsPlain.form_isCanonical (plain : numeral.IsPlain) : plain.toLegible.form.IsCanonical where
  unmarked := by
    unfold Legible.form
    split <;> simp
  whole_ne_nil := (formDigits_eq_nil_iff _).not.mpr plain.whole_ne_nil
  leading zero := by
    have alone := plain.leading ((head?_formDigits_eq_zero_iff _).mp zero)
    simp [Legible.form, formDigits, alone]
  fraction digits isFraction := by
    have nonempty : numeral.fraction ≠ [] := fun none => by simp [Legible.form, none] at isFraction
    obtain rfl : formDigits numeral.fraction plain.fraction = digits := by
      simpa [Legible.form, nonempty] using isFraction
    exact ⟨(formDigits_eq_nil_iff _).not.mpr nonempty, getLast?_formDigits _ plain.trailing⟩
  exponent exponent isExponent := by
    obtain ⟨power, isPower, rfl⟩ := Option.mem_map.mp isExponent
    obtain ⟨nonzero, digit, single, positive⟩ := plain.scientific power isPower
    have size : 0 < power.natAbs := Int.natAbs_pos.mpr nonzero
    refine ⟨rfl, ?_, ?_, ⟨digit, plain.whole digit (by simp [single])⟩, ?_, ?_⟩
    · unfold ExponentForm.signed
      split <;> simp
    · exact (head?_formDigits_eq_zero_iff _).not.mpr (head?_digitsOf_ne_zero (by decide) size)
    · simp [Legible.form, formDigits, single]
    · simpa [Fin.ext_iff] using positive

end Numeral

namespace Layout

variable {layout : Layout} {digits : List ℕ} {point : ℤ}

/-- A layout that writes no fraction `.0` and no exponent zero leaves out what it can. -/
theorem numeral_isPlain (plain : layout.zeroFraction = false) (least : layout.leastPoint ≤ 1)
    (greatest : 1 ≤ layout.greatestPoint) (negative : Bool) (each : ∀ digit ∈ digits, digit < 10)
    (nonempty : digits ≠ []) (leading : digits.head? ≠ some 0) (trailing : digits.getLast? ≠ some 0)
    (small : (point - 1).natAbs < 2 ^ 16) : (layout.numeral negative digits point).IsPlain := by
  have last {count : ℕ} : (digits.drop count).getLast? ≠ some 0 := by
    rw [List.getLast?_drop]
    split <;> simp [trailing]
  refine ⟨⟨layout.numeral_legible negative each nonempty small,
    layout.numeral_leading negative leading nonempty point⟩, ?_, ?_⟩
  · unfold numeral
    simp only [plain, Bool.false_eq_true, if_false]
    split_ifs
    · simp
    · exact last
    · rwa [List.getLast?_append_of_ne_nil _ nonempty]
    · exact last
  · intro exponent isExponent
    unfold numeral at isExponent ⊢
    simp only [plain, Bool.false_eq_true, if_false] at isExponent ⊢
    split_ifs at isExponent ⊢ with written
    · cases isExponent
    · cases isExponent
    · cases isExponent
    · obtain rfl : point - 1 = exponent := Option.some.inj isExponent
      obtain ⟨digit, rest, rfl⟩ := List.exists_cons_of_ne_nil nonempty
      refine ⟨by omega, digit, rfl, ?_⟩
      rintro rfl
      exact leading rfl

/-- Which points are written with an exponent, and which with neither exponent nor fraction. -/
theorem numeral_exponent_iff (negative : Bool) :
    (layout.numeral negative digits point).exponent = none ↔
      layout.leastPoint ≤ point ∧ point ≤ layout.greatestPoint := by
  unfold numeral
  split_ifs <;> simp_all

theorem numeral_whole_iff (plain : layout.zeroFraction = false) (least : layout.leastPoint ≤ 0)
    (nonempty : digits ≠ []) (negative : Bool) :
    (layout.numeral negative digits point).fraction = [] ∧
      (layout.numeral negative digits point).exponent = none ↔
        digits.length ≤ point ∧ point ≤ layout.greatestPoint := by
  have positive := List.length_pos_of_ne_nil nonempty
  unfold numeral
  simp only [plain, Bool.false_eq_true, if_false]
  split_ifs with written padded inside
  · simp [padded, written.2]
  · have some : digits.drop point.toNat ≠ [] := by
      rw [Ne, List.drop_eq_nil_iff]
      omega
    simp [some, padded]
  · simp [nonempty, padded]
  · have outside : ¬ (digits.length ≤ point ∧ point ≤ layout.greatestPoint) := by omega
    simp [outside]

end Layout

namespace Double

/-- A decimal without zeros at its end is set canonically, with an exponent if it is beyond `10^21`
or below `10^-6`, and without a point if it is an integer. -/
theorem exists_canonical_form {d : Decimal} (stripped : d.coefficient % 10 ≠ 0)
    (small : (d.point - 1).natAbs < 2 ^ 16) (negative : Bool) :
    ∃ form : DecimalForm, (layout.numeral negative d.digits d.point).chars 10 true = form.chars ∧
      form.sign = (if negative then .minus else .absent) ∧ form.value = d.value ∧
      form.IsCanonical ∧
      (form.exponent ≠ none ↔ 10 ^ 21 ≤ d.value ∨ d.value < 10 ^ (-6 : ℤ)) ∧
      (form.fraction = none ∧ form.exponent = none ↔ ∃ n : ℕ, d.value = n ∧ n < 10 ^ 21) := by
  have positive : 0 < d.coefficient := by omega
  have nonempty : d.digits ≠ [] := digitsOf_ne_nil (by decide) d.coefficient
  have trailing : d.digits.getLast? ≠ some 0 := by
    rw [d.getLast?_digits, Ne, Option.some.injEq]
    exact stripped
  have plain : (layout.numeral negative d.digits d.point).IsPlain :=
    Layout.numeral_isPlain rfl (by decide) (by decide) negative (digitsOf_lt (by decide) _) nonempty
      (head?_digitsOf_ne_zero (by decide) positive) trailing small
  have legible := plain.toLegible
  have below : d.value < 10 ^ 21 ↔ d.point ≤ 21 := by
    exact_mod_cast d.value_lt_iff positive 21
  have least : layout.leastPoint = -5 := rfl
  have greatest : layout.greatestPoint = 21 := rfl
  refine ⟨legible.form, legible.form_chars.symm, ?_, ?_, plain.form_isCanonical, ?_, ?_⟩
  · rw [Numeral.Legible.form, Layout.numeral_negative]
  · rw [legible.form_value, Layout.numeral_value _ _ nonempty, Decimal.point, Decimal.digits,
      ofDigits_digitsOf (by decide), add_sub_cancel_left, Decimal.value]
  · have above : 10 ^ 21 ≤ d.value ↔ 21 < d.point := by
      rw [← not_lt, below, not_le]
    rw [Ne, legible.form_exponent_iff, Layout.numeral_exponent_iff, above,
      d.value_lt_iff positive, least, greatest]
    omega
  · rw [legible.form_fraction_iff, legible.form_exponent_iff,
      Layout.numeral_whole_iff rfl (by decide) nonempty, greatest, Decimal.point,
      le_add_iff_nonneg_right, ← Decimal.point, ← d.exists_nat_iff stripped, ← below]
    constructor
    · rintro ⟨⟨n, whole⟩, less⟩
      rw [whole] at less
      exact ⟨n, whole, by exact_mod_cast less⟩
    · rintro ⟨n, whole, less⟩
      rw [whole]
      exact ⟨⟨n, rfl⟩, by exact_mod_cast less⟩

/-- The text of a finite number other than zero is a canonical numeral of its shortest decimal, after
a minus sign if the number is negative. It has an exponent if the decimal is beyond `10^21` or below
`10^-6`, and neither point nor exponent if it is an integer below `10^21`. In taking it from the
scientific notation nothing is asked for that is not there. -/
theorem text_isCanonical (negative : Bool) {m : Magnitude} (nonzero : 0 < m.rank)
    (finite : m.rank < infinityRank) :
    let n := signed negative m
    let d := m.shortest .up
    m.IsShortest d ∧
      Scientific.rewrite? (n.less 0) (d.scientific.chars 10 false) = some n.text.toList ∧
      ∃ form : DecimalForm, n.text = String.ofList form.chars ∧
        form.sign = (if n.less 0 then .minus else .absent) ∧ form.value = d.value ∧
        form.IsCanonical ∧
        (form.exponent ≠ none ↔ 10 ^ 21 ≤ d.value ∨ d.value < 10 ^ (-6 : ℤ)) ∧
        (form.fraction = none ∧ form.exponent = none ↔ ∃ k : ℕ, d.value = k ∧ k < 10 ^ 21) := by
  intro n d
  have shortest : m.IsShortest d := Magnitude.shortest_isShortest nonzero finite .up
  obtain ⟨least, greatest⟩ : -324 ≤ d.point ∧ d.point ≤ 309 :=
    Layout.shortest_point_bounds nonzero finite .up
  obtain ⟨form, chars, canonical⟩ :=
    exists_canonical_form shortest.stripped (by omega) negative
  have text : n.text = String.ofList form.chars := by
    rw [← chars]
    exact text_eq_write negative nonzero finite
  have sign : n.less 0 = negative := less_zero nonzero negative
  rw [sign]
  refine ⟨shortest, ?_, form, text, canonical⟩
  rw [text, String.toList_ofList, ← chars]
  exact Scientific.rewrite?_scientific negative (by omega)

/-- The greatest double below `10^-6`, negated, has sixteen digits and the exponent `e-7`. -/
theorem text_isCanonical_small :
    let m : Magnitude := ⟨0x3eb0c6f7a0b5ed8c, by decide⟩
    let n := signed true m
    let d := m.shortest .up
    0 < m.rank ∧ m.rank < infinityRank ∧ m.IsShortest d ∧
      Scientific.rewrite? (n.less 0) (d.scientific.chars 10 false) = some n.text.toList ∧
      ∃ form : DecimalForm, n.text = String.ofList form.chars ∧
        form.sign = (if n.less 0 then .minus else .absent) ∧ form.value = d.value ∧
        form.IsCanonical ∧
        (form.exponent ≠ none ↔ 10 ^ 21 ≤ d.value ∨ d.value < 10 ^ (-6 : ℤ)) ∧
        (form.fraction = none ∧ form.exponent = none ↔ ∃ k : ℕ, d.value = k ∧ k < 10 ^ 21) := by
  intro m n d
  have nonzero : 0 < m.rank := by decide
  have finite : m.rank < infinityRank := by decide
  exact ⟨nonzero, finite, text_isCanonical true nonzero finite⟩

end Double

end ScriptCore
