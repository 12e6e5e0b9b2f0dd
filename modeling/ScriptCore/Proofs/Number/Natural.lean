import ScriptCore.Proofs.Number.Canonical
import ScriptCore.Proofs.Number.Radix.Integral

/-! # Numbers written as naturals

The text of a number is that of a natural just for the naturals below `10^21`. Up to `2^53` it is
that of the number itself. Beyond `2^53` it is the shortest of the decimals that read back, maybe of
another natural, but of one beyond `2^53` as well.
-/

namespace ScriptCore

open Magnitude (IsExact unitsPerOne unitsPerOne_pos infinityRank)

variable {m : Magnitude}

/-! ## Shortest decimals that are naturals -/

namespace Magnitude

theorem attracts_of_value_eq (nonzero : 0 < m.rank) {tie : Tie} {k : ℕ}
    (value : (m.shortest tie).value = k) : m.Attracts (k * unitsPerOne : ℕ) := by
  have attracted := shortest_attracts nonzero tie
  rw [value] at attracted
  exact_mod_cast attracted

/-- The shortest decimal of `10^21` is that number. -/
theorem shortest_limit (value : m.units = 10 ^ 21 * unitsPerOne) :
    (m.shortest .up).value = (10 ^ 21 : ℕ) := by
  have limit : unitsOfRank 0x444b1ae4d6e2ef50 = 10 ^ 21 * unitsPerOne := by decide +kernel
  obtain rfl : m = ⟨0x444b1ae4d6e2ef50, by decide⟩ :=
    ext_rank (unitsOfRank_strictMono.injective (value.trans limit.symm))
  have single : shortest ⟨0x444b1ae4d6e2ef50, by decide⟩ .up = ⟨1, 21⟩ := by decide +kernel
  rw [single, Decimal.value]
  norm_num

theorem whole_pos (nonzero : 0 < m.rank) {n : ℕ} (value : m.units = n * unitsPerOne) : 0 < n := by
  have some : 0 < m.units := (Nat.zero_le _).trans_lt (pred_lt_units nonzero)
  rw [value] at some
  exact Nat.pos_of_mul_pos_right some

/-- The shortest decimal is a natural below `10^21` if and only if the magnitude is. -/
theorem shortest_natural_iff (nonzero : 0 < m.rank) (finite : m.rank < infinityRank) :
    (∃ k : ℕ, (m.shortest .up).value = k ∧ k < 10 ^ 21) ↔
      ∃ n : ℕ, m.units = n * unitsPerOne ∧ n < 10 ^ 21 := by
  have exact : IsExact m.units := ⟨m, finite, rfl⟩
  have limit : IsExact (10 ^ 21 * unitsPerOne) := .ten_pow (by decide)
  constructor
  · rintro ⟨k, value, small⟩
    have attracted := attracts_of_value_eq nonzero value
    rcases Nat.lt_or_ge m.units (2 ^ 53 * unitsPerOne) with fine | coarse
    · have units := attracted.lt_of_units_lt (.ones (Nat.le_refl _)) fine
      have less : k < 2 ^ 53 := (Nat.mul_lt_mul_right unitsPerOne_pos).mp (Nat.cast_lt.mp units)
      exact ⟨k, attracted.units_eq (.ones less.le), small⟩
    · obtain ⟨n, isUnits⟩ := exact.unitsPerOne_dvd coarse
      rw [Nat.mul_comm] at isUnits
      refine ⟨n, isUnits, Nat.lt_of_not_le fun large => ?_⟩
      rcases Nat.lt_or_eq_of_le large with beyond | rfl
      · exact Nat.lt_asymm small (attracted.lt_of_lt_whole isUnits limit beyond)
      · rw [shortest_limit isUnits, Nat.cast_inj] at value
        exact small.ne value.symm
  · rintro ⟨n, isUnits, small⟩
    have positive := whole_pos nonzero isUnits
    have shortest := shortest_isShortest nonzero finite .up
    obtain ⟨k, value⟩ := (Decimal.exists_nat_iff shortest.stripped).mpr
      (shortest_exponent_nonneg isUnits positive finite .up)
    exact ⟨k, value, (attracts_of_value_eq nonzero value).lt_of_whole_lt isUnits limit small⟩

end Magnitude

/-! ## Texts of naturals -/

/-- A canonical form of digits only is the text of its value. -/
theorem DecimalForm.IsCanonical.chars_eq {form : DecimalForm} (canonical : form.IsCanonical)
    (sign : form.sign = .absent) (plain : form.fraction = none ∧ form.exponent = none) {k : ℕ}
    (value : form.value = k) : form.chars = (toString k).toList := by
  have nonempty : form.whole.map Fin.val ≠ [] := by
    rw [Ne, List.map_eq_nil_iff]
    exact canonical.whole_ne_nil
  have each : ∀ digit ∈ form.whole.map Fin.val, digit < 10 := by
    intro digit isDigit
    obtain ⟨bounded, -, rfl⟩ := List.mem_map.mp isDigit
    exact bounded.isLt
  have digits : ofDigits 10 (form.whole.map Fin.val) = k := by
    rw [DecimalForm.value, DecimalForm.scale, DecimalForm.digits, plain.1, plain.2] at value
    simpa [digitsValue] using value
  have written : digitsOf 10 k = form.whole.map Fin.val := by
    by_cases zero : form.whole.head? = some 0
    · rw [← digits, canonical.leading zero]
      rfl
    · rw [← digits]
      apply digitsOf_ofDigits (by decide) nonempty each
      rw [List.head?_map]
      intro leading
      obtain ⟨first, isFirst, isZero⟩ := Option.map_eq_some_iff.mp leading
      obtain rfl : first = 0 := Fin.ext isZero
      exact zero isFirst
  rw [DecimalForm.chars, DecimalForm.fractionChars, DecimalForm.exponentChars, sign, plain.1,
    plain.2, toList_toString, written]
  simp [SignMark.chars, pointChars, digitChars]

/-- A form that is the text of a natural has no sign, no point and no exponent. -/
theorem DecimalForm.plain_of_chars {form : DecimalForm} {k : ℕ}
    (chars : form.chars = (toString k).toList) :
    form.sign.chars = [] ∧ form.fraction = none ∧ form.exponent = none := by
  have digits := toString_subset k
  rw [← chars, DecimalForm.chars] at digits
  obtain ⟨sign, -, fraction, exponent⟩ := by simpa only [List.append_subset] using digits
  refine ⟨?_, ?_, ?_⟩
  · cases isSign : form.sign with
    | absent => rfl
    | plus | minus =>
      rw [isSign] at sign
      exact absurd (sign (List.mem_cons_self ..)) (by decide)
  · cases isFraction : form.fraction with
    | none => rfl
    | some places =>
      rw [DecimalForm.fractionChars, isFraction] at fraction
      exact absurd (fraction (List.mem_cons_self ..)) (by decide)
  · cases isExponent : form.exponent with
    | none => rfl
    | some power =>
      rw [DecimalForm.exponentChars, isExponent] at exponent
      have letter := exponent (List.mem_cons_self ..)
      cases capital : power.capital <;> rw [capital] at letter <;> exact absurd letter (by decide)

namespace Double

/-- The canonical form of a number, with its value. -/
theorem exists_form (negative : Bool) (nonzero : 0 < m.rank) (finite : m.rank < infinityRank) :
    ∃ form : DecimalForm, (signed negative m).text = String.ofList form.chars ∧
      form.sign = (if negative then .minus else .absent) ∧ form.value = (m.shortest .up).value ∧
      form.IsCanonical ∧ (form.fraction = none ∧ form.exponent = none ↔
        ∃ n : ℕ, m.units = n * unitsPerOne ∧ n < 10 ^ 21) := by
  have shortest := Magnitude.shortest_isShortest nonzero finite .up
  obtain ⟨least, greatest⟩ := Layout.shortest_point_bounds nonzero finite .up
  obtain ⟨form, chars, sign, value, canonical, -, plain⟩ :=
    exists_canonical_form shortest.stripped (by omega) negative
  refine ⟨form, ?_, sign, value, canonical, ?_⟩
  · rw [← chars]
    exact text_eq_write negative nonzero finite
  · rw [plain, Magnitude.shortest_natural_iff nonzero finite]

/-- Only the naturals below `10^21` have the text of a natural. -/
theorem exactValue?_of_text {n : Double} {k : ℕ} (natural : n.text = toString k) :
    ∃ value : ℕ, n.exactValue? = some (value : ℚ) ∧ value < 10 ^ 21 := by
  have digits := toString_subset k
  rw [← natural] at digits
  cases n with
  | nan => exact absurd (digits (List.mem_cons_self ..)) (by decide)
  | signed negative m =>
    rcases m.zero_or_infinity_or_between with rfl | rfl | ⟨nonzero, finite⟩
    · refine ⟨0, ?_, by decide⟩
      cases negative <;> decide +kernel
    · cases negative <;> exact absurd (digits (List.mem_cons_self ..)) (by decide)
    · obtain ⟨form, text, sign, -, -, plain⟩ := exists_form negative nonzero finite
      have chars : form.chars = (toString k).toList := by
        rw [← natural, text, String.toList_ofList]
      obtain ⟨unsigned, isPlain⟩ := DecimalForm.plain_of_chars chars
      obtain ⟨value, units, small⟩ := plain.mp isPlain
      have positive : negative = false := by
        cases negative with
        | false => rfl
        | true =>
          rw [sign] at unsigned
          cases unsigned
      refine ⟨value, ?_, small⟩
      have divides : (unitsPerOne : ℚ) ≠ 0 := Nat.cast_ne_zero.mpr unitsPerOne_pos.ne'
      rw [exactValue?_of_finite finite, positive, signedUnits, if_neg Bool.false_ne_true,
        Int.cast_natCast, units, Nat.cast_mul, mul_div_cancel_right₀ _ divides]

/-- A natural below `10^21` has the text of a natural, up to `2^53` its own and beyond it that of
another one beyond. -/
theorem exists_text_of_natural {n : Double} {value : ℕ} (isValue : n.exactValue? = some (value : ℚ))
    (small : value < 10 ^ 21) :
    ∃ k : ℕ, n.text = toString k ∧ (value ≤ 2 ^ 53 → k = value) ∧
      (2 ^ 53 < value → 2 ^ 53 < k) := by
  obtain ⟨negative, m, finite, rfl, exact⟩ := eq_signed_of_exactValue? isValue
  have units : m.units = value * unitsPerOne := by
    have integer : (signedUnits negative m : ℚ) / unitsPerOne = (value : ℤ) := by
      rw [exact, Int.cast_natCast]
    rw [units_of_integer integer, Int.natAbs_natCast]
  rcases Nat.eq_zero_or_pos m.rank with zero | nonzero
  · obtain rfl : m = .zero := Magnitude.ext_rank zero
    have none : value = 0 := (Nat.mul_eq_zero.mp units.symm).resolve_right unitsPerOne_pos.ne'
    refine ⟨0, rfl, fun _ => none.symm, by omega⟩
  · obtain ⟨form, text, sign, isForm, canonical, plain⟩ := exists_form negative nonzero finite
    have natural : ∃ other : ℕ, m.units = other * unitsPerOne ∧ other < 10 ^ 21 :=
      ⟨value, units, small⟩
    obtain ⟨k, isShortest, -⟩ := (Magnitude.shortest_natural_iff nonzero finite).mpr natural
    have positive : negative = false := by
      have nonnegative : ¬ (signed negative m).less 0 = true := by
        rw [less_zero_iff, exact, not_lt]
        exact Nat.cast_nonneg value
      rwa [less_zero nonzero, Bool.not_eq_true] at nonnegative
    rw [positive, if_neg Bool.false_ne_true] at sign
    have chars := canonical.chars_eq sign (plain.mpr natural) (isForm.trans isShortest)
    refine ⟨k, ?_, fun bounded => ?_, fun beyond => ?_⟩
    · rw [text, chars, String.ofList_toList]
    · obtain ⟨zeros, exponent, whole⟩ :=
        Magnitude.shortest_of_whole units (Magnitude.whole_pos nonzero units) bounded .up
      rw [Decimal.value, exponent, zpow_natCast] at isShortest
      have shortest : (m.shortest .up).coefficient * 10 ^ zeros = k := by exact_mod_cast isShortest
      exact shortest.symm.trans whole
    · have attracted := Magnitude.attracts_of_value_eq nonzero isShortest
      exact attracted.lt_of_lt_whole units (.ones (Nat.le_refl _)) beyond

/-- A natural up to `2^53` has its own text, and no other number has it. -/
theorem text_eq_toString_iff {n : Double} {k : ℕ} (small : k ≤ 2 ^ 53) :
    n.text = toString k ↔ n.exactValue? = some (k : ℚ) := by
  constructor
  · intro natural
    obtain ⟨value, isValue, bounded⟩ := exactValue?_of_text natural
    obtain ⟨other, isText, own, beyond⟩ := exists_text_of_natural isValue bounded
    obtain rfl : k = other := toString_injective (natural.symm.trans isText)
    rcases Nat.lt_or_ge (2 ^ 53) value with large | within
    · exact absurd (beyond large) (Nat.not_lt.mpr small)
    · rw [own within]
      exact isValue
  · intro isValue
    obtain ⟨other, isText, own, -⟩ := exists_text_of_natural isValue (small.trans_lt (by decide))
    rw [isText, own small]

/-- No number is written as a word that does not read as a number, but for its own. -/
theorem text_ne {word : String} (foreign : ofText word = nan) (other : word ≠ "NaN") (n : Double) :
    n.text ≠ word := by
  intro isWord
  subst isWord
  by_cases isNegativeZero : n = negativeZero
  · subst isNegativeZero
    exact absurd foreign (by decide)
  · rw [ofText_text_of_ne isNegativeZero] at foreign
    subst foreign
    exact other rfl

end Double

end ScriptCore
