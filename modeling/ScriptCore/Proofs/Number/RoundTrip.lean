import ScriptCore.Number.Text
import ScriptCore.Proofs.Number.Reading
import ScriptCore.Proofs.Number.Shortest

/-! # Number text round trip

A magnitude that attracts the value of a decimal is what the decimal reads as, since the attraction
keeps the value within the range in which the reader computes it. Every layout of digits keeps their
value. So whatever the layout, a number reads back from its shortest decimal.
-/

namespace ScriptCore

namespace Magnitude

variable {m : Magnitude} {value : ℚ}

theorem Attracts.lt_ten_pow (power : Nat) (finite : m.rank < infinityRank)
    (bound : unitsOfRank infinityRank ≤ 10 ^ power * unitsPerOne)
    (attracted : m.Attracts (value * unitsPerOne)) : value < 10 ^ power := by
  have next : unitsOfRank (m.rank + 1) ≤ 10 ^ power * unitsPerOne :=
    (unitsOfRank_strictMono.monotone finite).trans bound
  have above : (m.units : ℚ) < unitsOfRank (m.rank + 1) := Nat.cast_lt.mpr m.units_lt_succ
  have limit : (unitsOfRank (m.rank + 1) : ℚ) ≤ 10 ^ power * unitsPerOne := by exact_mod_cast next
  have upper := attracted.upper
  unfold upperEnd at upper
  have positive : (0 : ℚ) < unitsPerOne := Nat.cast_pos.mpr unitsPerOne_pos
  exact lt_of_mul_lt_mul_right (by linarith) positive.le

theorem Attracts.one_le_two_mul (nonzero : 0 < m.rank) {units : ℚ} (attracted : m.Attracts units) :
    1 ≤ 2 * units := by
  have least : (1 : ℚ) ≤ m.units :=
    Nat.one_le_cast.mpr (Nat.one_le_of_lt (pred_lt_units nonzero))
  have below : (0 : ℚ) ≤ unitsOfRank (m.rank - 1) := Nat.cast_nonneg _
  have lower := attracted.lower
  unfold lowerEnd at lower
  linarith

theorem Attracts.value_pos (nonzero : 0 < m.rank) (attracted : m.Attracts (value * unitsPerOne)) :
    0 < value := by
  have lower := attracted.one_le_two_mul nonzero
  have positive : (0 : ℚ) < unitsPerOne := Nat.cast_pos.mpr unitsPerOne_pos
  exact (mul_pos_iff_of_pos_right positive).mp (by linarith)

theorem Attracts.ten_pow_lt (power : Nat) (nonzero : 0 < m.rank)
    (bound : 2 * unitsPerOne < 10 ^ power)
    (attracted : m.Attracts (value * unitsPerOne)) : (10 : ℚ) ^ (-power : Int) < value := by
  have lower := attracted.one_le_two_mul nonzero
  have limit : (2 * unitsPerOne : ℚ) < 10 ^ power := by exact_mod_cast bound
  have product := mul_lt_mul_of_pos_left limit (attracted.value_pos nonzero)
  rw [zpow_neg, zpow_natCast, inv_lt_iff_one_lt_mul₀ (by positivity)]
  linarith

/-- An attracted decimal has its point where the reader takes in the digits. -/
theorem Attracts.point_bounds (nonzero : 0 < m.rank) (finite : m.rank < infinityRank)
    {n length : Nat} {exponent : Int} (least : 10 ^ length ≤ 10 * n) (less : n < 10 ^ length)
    (attracted : m.Attracts (n * 10 ^ exponent * unitsPerOne)) :
    -324 ≤ length + exponent ∧ length + exponent ≤ 309 := by
  have power : (10 : ℚ) ^ (length + exponent) = 10 ^ length * 10 ^ exponent := by
    rw [zpow_add₀ (by decide), zpow_natCast]
  have scale : (0 : ℚ) < 10 ^ exponent := by positivity
  constructor
  · have lower := attracted.ten_pow_lt 325 nonzero (by decide +kernel)
    have above : (n : ℚ) * 10 ^ exponent < 10 ^ (length + exponent) := by
      rw [power]
      exact mul_lt_mul_of_pos_right (by exact_mod_cast less) scale
    have order := (zpow_lt_zpow_iff_right₀ (by decide)).mp (lower.trans above)
    omega
  · have upper := attracted.lt_ten_pow 309 finite (by decide +kernel)
    have below : (10 : ℚ) ^ (length + exponent - 1) ≤ n * 10 ^ exponent := by
      rw [zpow_sub_one₀ (by decide), power, ← div_eq_mul_inv, div_le_iff₀ (by decide),
        mul_right_comm]
      exact mul_le_mul_of_nonneg_right (by exact_mod_cast Nat.mul_comm .. ▸ least) scale.le
    rw [← zpow_natCast] at upper
    have order := (zpow_lt_zpow_iff_right₀ (by decide)).mp (below.trans_lt upper)
    omega

/-- The decimal reads as the magnitude that attracts its value. -/
theorem Attracts.ofDecimal_eq (nonzero : 0 < m.rank) (finite : m.rank < infinityRank)
    {digits : List Nat} (each : ∀ digit ∈ digits, digit < 10) {exponent : Int}
    (attracted : m.Attracts (ofDigits 10 digits * 10 ^ exponent * unitsPerOne)) (negative : Bool) :
    Double.ofDecimal negative digits exponent = .signed negative m := by
  have fewer : ∀ digit ∈ digits.dropWhile (· == 0), digit < 10 := fun digit isDigit =>
    each digit (List.dropWhile_subset _ isDigit)
  have leading := List.head?_dropWhile_not (· == 0) digits
  rw [← ofDigits_dropZeros] at attracted
  unfold Double.ofDecimal
  dsimp only
  generalize digits.dropWhile (· == 0) = digits at *
  cases digits with
  | nil =>
    have positive := attracted.value_pos nonzero
    simp [ofDigits] at positive
  | cons digit digits =>
    have positive : 0 < digit := by
      simpa [Nat.pos_iff_ne_zero] using leading
    have least : 10 ^ (digit :: digits).length ≤ 10 * ofDigits 10 (digit :: digits) := by
      rw [List.length_cons, Nat.pow_succ']
      exact Nat.mul_le_mul_left 10 (pow_le_ofDigits_cons 10 positive digits)
    have bounds := attracted.point_bounds nonzero finite least (ofDigits_lt (by decide) fewer)
    have fraction : (ofDigits 10 (digit :: digits) * 10 ^ exponent * unitsPerOne : ℚ) =
        (ofDigits 10 (digit :: digits) * 10 ^ exponent.toNat * unitsPerOne : Nat) /
          (10 ^ (-exponent).toNat : Nat) := by
      rw [zpow_eq_pow_div_pow]
      generalize unitsPerOne = unit
      push_cast
      field_simp
    rw [fraction] at attracted
    rw [if_neg (by simp), if_neg (by omega), if_neg (by omega), Double.ofRatio, Double.nearest,
      ofLongDigits_eq, attracted.nearest_eq finite (Nat.pow_pos (by decide))]

end Magnitude

/-- The number that a decimal numeral denotes, up to its sign. -/
def Numeral.value (numeral : Numeral) : ℚ :=
  ofDigits 10 (numeral.whole ++ numeral.fraction) * 10 ^ numeral.scale

theorem Numeral.Legible.ofText_render {numeral : Numeral} (legible : numeral.Legible) (plus : Bool)
    {m : Magnitude} (nonzero : 0 < m.rank) (finite : m.rank < Magnitude.infinityRank)
    (attracted : m.Attracts (numeral.value * Magnitude.unitsPerOne)) :
    Double.ofText (numeral.render 10 plus) = .signed numeral.negative m := by
  have each : ∀ digit ∈ numeral.whole ++ numeral.fraction, digit < 10 :=
    List.forall_mem_append.mpr ⟨legible.whole, legible.fraction⟩
  rw [Double.ofText_render legible]
  exact attracted.ofDecimal_eq nonzero finite each numeral.negative

namespace Layout

theorem numeral_negative (layout : Layout) (negative : Bool) (digits : List Nat) (point : Int) :
    (layout.numeral negative digits point).negative = negative := by
  unfold numeral
  split_ifs <;> rfl

/-- However digits are set, they keep their value. -/
theorem numeral_value (layout : Layout) (negative : Bool) {digits : List Nat}
    (nonempty : digits ≠ []) (point : Int) :
    (layout.numeral negative digits point).value =
      ofDigits 10 digits * 10 ^ (point - digits.length) := by
  have positive := List.length_pos_of_ne_nil nonempty
  unfold numeral
  split
  · split
    · -- An integer, with zeros up to its point.
      next padded =>
      obtain ⟨count, within⟩ : ∃ count : Nat, point = digits.length + count :=
        ⟨(point - digits.length).toNat, by omega⟩
      have zeros : point.toNat - digits.length = count := by omega
      have place : point - digits.length = count := by omega
      rw [place, zeros, zpow_natCast]
      unfold Numeral.value Numeral.scale
      cases layout.zeroFraction
      · simp [ofDigits_append_zeros]
      · have zero : ofDigits 10 (digits ++ (List.replicate count 0 ++ [0])) =
            ofDigits 10 digits * 10 ^ (count + 1) := by
          rw [← List.replicate_succ', ofDigits_append_zeros]
        simp [zero, pow_succ]
        field_simp
    · split
      · -- The point stands inside the digits.
        unfold Numeral.value Numeral.scale
        simp only [List.take_append_drop, List.length_drop, Option.getD_none]
        congr 2
        omega
      · -- The point stands before the digits, after zeros.
        unfold Numeral.value Numeral.scale
        rw [← List.replicate_one, ← List.append_assoc, List.replicate_append_replicate,
          ofDigits_zeros_append]
        simp only [List.length_append, List.length_replicate, Option.getD_none]
        congr 2
        omega
  · -- The exponent moves the point from behind the first digit.
    unfold Numeral.value Numeral.scale
    simp only [List.take_append_drop, List.length_drop, Option.getD_some]
    congr 2
    omega

theorem numeral_legible (layout : Layout) (negative : Bool) {digits : List Nat}
    (each : ∀ digit ∈ digits, digit < 10) (nonempty : digits ≠ []) {point : Int}
    (small : (point - 1).natAbs < 2 ^ 16) : (layout.numeral negative digits point).Legible := by
  have positive := List.length_pos_of_ne_nil nonempty
  have zeros (count : Nat) : ∀ digit ∈ List.replicate count 0, digit < 10 := by
    intro digit isZero
    rw [List.eq_of_mem_replicate isZero]
    decide
  have join {first second : List Nat} (left : ∀ digit ∈ first, digit < 10)
      (right : ∀ digit ∈ second, digit < 10) : ∀ digit ∈ first ++ second, digit < 10 :=
    List.forall_mem_append.mpr ⟨left, right⟩
  have taken (count : Nat) : ∀ digit ∈ digits.take count, digit < 10 := fun digit isDigit =>
    each digit (List.mem_of_mem_take isDigit)
  have dropped (count : Nat) : ∀ digit ∈ digits.drop count, digit < 10 := fun digit isDigit =>
    each digit (List.mem_of_mem_drop isDigit)
  unfold numeral
  split_ifs
  · exact ⟨join each (zeros _), zeros 1, by simp [nonempty], by simp⟩
  · exact ⟨join each (zeros _), by simp, by simp [nonempty], by simp⟩
  · exact ⟨taken _, dropped _, by simp [nonempty]; omega, by simp⟩
  · exact ⟨zeros 1, join (zeros _) each, by simp, by simp⟩
  · exact ⟨taken _, dropped _, by simp [nonempty], by simpa using small⟩

theorem numeral_leading (layout : Layout) (negative : Bool) {digits : List Nat}
    (leading : digits.head? ≠ some 0) (nonempty : digits ≠ []) (point : Int) :
    (layout.numeral negative digits point).whole.head? = some 0 →
      (layout.numeral negative digits point).whole = [0] := by
  have taken {count : Nat} (positive : 0 < count) : (digits.take count).head? ≠ some 0 := by
    rwa [List.head?_take, if_neg positive.ne']
  unfold numeral
  split_ifs
  · exact fun zero => absurd (List.head?_append_of_ne_nil _ nonempty ▸ zero) leading
  · exact fun zero => absurd (List.head?_append_of_ne_nil _ nonempty ▸ zero) leading
  · exact fun zero => absurd zero (taken (by omega))
  · exact fun _ => rfl
  · exact fun zero => absurd zero (taken Nat.one_pos)

/-- The numeral that a layout writes. -/
def written (layout : Layout) (negative : Bool) (m : Magnitude) : Numeral :=
  layout.numeral negative (m.shortest layout.tie).digits (m.shortest layout.tie).point

theorem write_eq (layout : Layout) (negative : Bool) (m : Magnitude) :
    layout.write negative m = (layout.written negative m).render 10 layout.plusSign := rfl

theorem written_negative (layout : Layout) (negative : Bool) (m : Magnitude) :
    (layout.written negative m).negative = negative :=
  layout.numeral_negative negative _ _

section Written

variable (layout : Layout) (negative : Bool) {m : Magnitude} (nonzero : 0 < m.rank)
include nonzero

theorem shortest_coefficient_pos (tie : Tie) : 0 < (m.shortest tie).coefficient := by
  refine Nat.pos_of_ne_zero fun none => ?_
  have value := (Magnitude.shortest_attracts nonzero tie).value_pos nonzero
  simp [Decimal.value, none] at value

/-- The magnitude attracts the value of what is written. -/
theorem written_attracts :
    m.Attracts ((layout.written negative m).value * Magnitude.unitsPerOne) := by
  have attracted := Magnitude.shortest_attracts nonzero layout.tie
  have nonempty := digitsOf_ne_nil (show 1 < 10 by decide) (m.shortest layout.tie).coefficient
  rw [written, Decimal.point, Decimal.digits, layout.numeral_value negative nonempty,
    ofDigits_digitsOf (by decide), add_sub_cancel_left]
  exact attracted

theorem shortest_point_bounds (finite : m.rank < Magnitude.infinityRank) (tie : Tie) :
    -324 ≤ (m.shortest tie).point ∧ (m.shortest tie).point ≤ 309 :=
  (Magnitude.shortest_attracts nonzero tie).point_bounds nonzero finite
    (pow_length_digitsOf_le (by decide) (shortest_coefficient_pos nonzero tie))
    (lt_pow_length_digitsOf (by decide) (m.shortest tie).coefficient)

theorem written_isStrict (finite : m.rank < Magnitude.infinityRank) :
    (layout.written negative m).IsStrict := by
  have positive := shortest_coefficient_pos nonzero layout.tie
  have bounds := shortest_point_bounds nonzero finite layout.tie
  rw [written]
  generalize m.shortest layout.tie = decimal at *
  have each : ∀ digit ∈ decimal.digits, digit < 10 := digitsOf_lt (by decide) decimal.coefficient
  have nonempty : decimal.digits ≠ [] := digitsOf_ne_nil (by decide) decimal.coefficient
  exact ⟨layout.numeral_legible negative each nonempty (by omega),
    layout.numeral_leading negative (head?_digitsOf_ne_zero (by decide) positive) nonempty _⟩

end Written

/-- A finite number other than zero reads back from its shortest decimal in every layout. -/
theorem ofText_write (layout : Layout) (negative : Bool) {m : Magnitude} (nonzero : 0 < m.rank)
    (finite : m.rank < Magnitude.infinityRank) :
    Double.ofText (layout.write negative m) = .signed negative m := by
  have legible := (layout.written_isStrict negative nonzero finite).toLegible
  have attracted := layout.written_attracts negative nonzero
  rw [layout.write_eq, legible.ofText_render layout.plusSign nonzero finite attracted,
    layout.written_negative]

end Layout

theorem Double.text_eq_write (negative : Bool) {m : Magnitude} (nonzero : 0 < m.rank)
    (finite : m.rank < Magnitude.infinityRank) :
    (Double.signed negative m).text = Double.layout.write negative m := by
  simp [Double.text, Magnitude.isZero, Magnitude.isInfinite, nonzero.ne', finite.ne]

/-- Every number but negative zero reads back from its text. -/
theorem Double.ofText_text_of_ne {n : Double} (other : n ≠ .negativeZero) :
    Double.ofText n.text = n := by
  cases n with
  | nan => decide
  | signed negative m =>
    by_cases zero : m = .zero
    · subst zero
      cases negative
      · decide
      · contradiction
    · by_cases infinite : m = .infinity
      · subst infinite
        cases negative <;> decide
      · have nonzero : m.rank ≠ 0 := fun none => zero (by cases m; cases none; rfl)
        have finite : m.rank ≠ Magnitude.infinityRank := fun last =>
          infinite (by cases m; cases last; rfl)
        have positive := Nat.pos_of_ne_zero nonzero
        have bounded := Nat.lt_of_le_of_ne m.rank_le finite
        rw [Double.text_eq_write negative positive bounded,
          Layout.ofText_write _ _ positive bounded]

/-- Every number reads back from its text, but negative zero as zero. -/
theorem Double.ofText_text (n : Double) :
    Double.ofText n.text = if n = .negativeZero then .zero else n := by
  split_ifs with isNegativeZero
  · rw [isNegativeZero]
    decide
  · exact ofText_text_of_ne isNegativeZero

end ScriptCore
