import ScriptCore.Number.Fixed
import ScriptCore.Proofs.Number.Exact
import ScriptCore.Proofs.Number.Scientific

/-! # Decimal expansions and their ties

The expansion of a finite number to all its places is the number of its units times a power of five,
with the point set. What is cut off there is one half exactly if the number is a tie for the places
that are kept. The digits that are kept are incremented then; otherwise a half to the even neighbour
and a half away from zero are the same rounding.
-/

namespace ScriptCore

-- Powers of naturals are those of the definitions.
attribute [local instance (2000)] instPowNat

/-! ## Numerals with a count of places -/

namespace Numeral

/-- A signed fraction rounded to `places` decimal places, a half going away from zero. -/
def fixed (negative : Bool) (numerator denominator places : ℕ) : Numeral :=
  ofScaled negative (roundHalfUp (numerator * 10 ^ places) denominator) places

/-- A decimal numeral without superfluous zeros before its point and with a given number of digits
after it. -/
structure IsFixed (numeral : Numeral) (places : ℕ) : Prop where
  whole : ∀ digit ∈ numeral.whole, digit < 10
  fraction : ∀ digit ∈ numeral.fraction, digit < 10
  whole_ne_nil : numeral.whole ≠ []
  leading : numeral.whole.head? = some 0 → numeral.whole = [0]
  places : numeral.fraction.length = places
  exponent : numeral.exponent = none

/-- The digits of a natural with its last ones behind the point. -/
theorem ofScaled_digits (negative : Bool) (scaled places : ℕ) :
    (ofScaled negative scaled places).IsFixed places ∧
      ofDigits 10 ((ofScaled negative scaled places).whole ++
        (ofScaled negative scaled places).fraction) = scaled := by
  rw [ofScaled]
  have leading : (digitsOf 10 (scaled / 10 ^ places)).head? = some 0 →
      digitsOf 10 (scaled / 10 ^ places) = [0] := eq_zero_of_head?_digitsOf (by decide)
  have whole := digitsOf_lt (show 1 < 10 by decide) (scaled / 10 ^ places)
  have nonempty := digitsOf_ne_nil (show 1 < 10 by decide) (scaled / 10 ^ places)
  rcases Nat.eq_zero_or_pos places with rfl | positive
  · refine ⟨⟨whole, by simp, nonempty, leading, rfl, rfl⟩, ?_⟩
    simp [ofDigits_digitsOf]
  · have short : (digitsOf 10 (scaled % 10 ^ places)).length ≤ places :=
      length_digitsOf_le (by decide) positive (Nat.mod_lt _ (Nat.pow_pos (by decide)))
    have length : (List.replicate (places - (digitsOf 10 (scaled % 10 ^ places)).length) 0 ++
        digitsOf 10 (scaled % 10 ^ places)).length = places := by
      rw [List.length_append, List.length_replicate, Nat.sub_add_cancel short]
    simp only [positive.ne', if_false]
    refine ⟨⟨whole, ?_, nonempty, leading, length, rfl⟩, ?_⟩
    · rw [List.forall_mem_append]
      refine ⟨fun digit isZero => ?_, digitsOf_lt (by decide) _⟩
      rw [List.eq_of_mem_replicate isZero]
      decide
    · rw [ofDigits_append, length, ofDigits_zeros_append, ofDigits_digitsOf (by decide),
        ofDigits_digitsOf (by decide)]
      exact Nat.div_add_mod' scaled (10 ^ places)

/-- A numeral without superfluous zeros is determined by its sign, its places and its digits. -/
theorem IsFixed.ext {first second : Numeral} {places : ℕ} (isFirst : first.IsFixed places)
    (isSecond : second.IsFixed places) (sign : first.negative = second.negative)
    (digits : ofDigits 10 (first.whole ++ first.fraction) =
      ofDigits 10 (second.whole ++ second.fraction)) : first = second := by
  obtain ⟨firstWhole, firstFraction⟩ := ofDigits_div_mod (by decide) first.whole isFirst.fraction
  obtain ⟨secondWhole, secondFraction⟩ :=
    ofDigits_div_mod (by decide) second.whole isSecond.fraction
  rw [isFirst.places, digits] at firstWhole firstFraction
  rw [isSecond.places] at secondWhole secondFraction
  have whole : first.whole = second.whole := by
    rw [eq_digitsOf (by decide) isFirst.whole_ne_nil isFirst.whole isFirst.leading, firstWhole,
      ← secondWhole,
      ← eq_digitsOf (by decide) isSecond.whole_ne_nil isSecond.whole isSecond.leading]
  have fraction : first.fraction = second.fraction :=
    eq_of_ofDigits_eq (by decide) (isFirst.places.trans isSecond.places.symm) isFirst.fraction
      isSecond.fraction (firstFraction.trans secondFraction.symm)
  have exponent : first.exponent = second.exponent := isFirst.exponent.trans isSecond.exponent.symm
  cases first
  cases second
  cases sign
  cases whole
  cases fraction
  cases exponent
  rfl

theorem render_ofScaled_true (scaled places : ℕ) :
    (ofScaled true scaled places).render 10 true =
      "-" ++ (ofScaled false scaled places).render 10 true := by
  have joined : String.ofList (['-'] ++ (ofScaled false scaled places).chars 10 true) =
      String.ofList ['-'] ++ (ofScaled false scaled places).render 10 true := String.ofList_append
  exact joined

end Numeral

/-! ## Ties -/

/-- Short of a half the two roundings agree. -/
theorem roundHalfEven_eq_roundHalfUp {numerator denominator : ℕ} (positive : 0 < denominator)
    (noTie : 2 * (numerator % denominator) ≠ denominator) :
    roundHalfEven numerator denominator = roundHalfUp numerator denominator := by
  have split := Nat.div_add_mod' numerator denominator
  have less := Nat.mod_lt numerator positive
  rw [roundHalfEven, roundHalfUp]
  generalize numerator / denominator = below at *
  generalize numerator % denominator = rest at *
  obtain rfl := split
  have doubled : 2 * (below * denominator + rest) + denominator =
      2 * rest + denominator + 2 * denominator * below := by ring
  rw [doubled, Nat.add_mul_div_left _ _ (by omega)]
  rcases Nat.lt_or_ge (2 * rest) denominator with small | large
  · have none : (2 * rest + denominator) / (2 * denominator) = 0 := Nat.div_eq_of_lt (by omega)
    rw [if_pos small, none, Nat.zero_add]
  · have one : (2 * rest + denominator) / (2 * denominator) = 1 :=
      Nat.div_eq_of_lt_le (by omega) (by omega)
    rw [if_neg (by omega), if_pos (by omega), one, Nat.add_comm]

/-- A half goes up. -/
theorem roundHalfUp_of_tie {numerator denominator : ℕ} (positive : 0 < denominator)
    (tie : 2 * (numerator % denominator) = denominator) :
    roundHalfUp numerator denominator = numerator / denominator + 1 := by
  have split := Nat.div_add_mod' numerator denominator
  rw [roundHalfUp]
  generalize numerator / denominator = below at *
  generalize numerator % denominator = rest at *
  obtain rfl := split
  have doubled : 2 * (below * denominator + rest) + denominator =
      2 * denominator * (below + 1) := by
    rw [← tie]
    ring
  rw [doubled, Nat.mul_div_cancel_left _ (by omega)]

namespace Fixed

/-- Digits that write one half have half the value that would carry. -/
theorem isHalf_iff {digits : List ℕ} (each : ∀ digit ∈ digits, digit < 10) :
    isHalf (digits.map (digitChar 10)) = true ↔ 2 * ofDigits 10 digits = 10 ^ digits.length := by
  have five : ∀ digit < 10, digitChar 10 digit = '5' ↔ digit = 5 := by decide
  have none : ∀ digit < 10, digitChar 10 digit = '0' ↔ digit = 0 := by decide
  cases digits with
  | nil => simp [isHalf, ofDigits]
  | cons first rest =>
    obtain ⟨small, others⟩ := List.forall_mem_cons.mp each
    have zeros : (rest.map (digitChar 10)).all (· == '0') = true ↔ ofDigits 10 rest = 0 := by
      rw [List.all_map, List.all_eq_true]
      constructor
      · intro zero
        have replicated : rest = List.replicate rest.length 0 :=
          List.eq_replicate_of_mem fun digit isDigit =>
            (none digit (others digit isDigit)).mp (beq_iff_eq.mp (zero digit isDigit))
        rw [replicated, ofDigits_zeros]
      · intro zero digit isDigit
        rw [ofDigits_eq] at zero
        rw [Function.comp_apply, beq_iff_eq, none digit (others digit isDigit)]
        exact Nat.digits_zero_of_eq_zero (by decide) zero digit (List.mem_reverse.mpr isDigit)
    have less : ofDigits 10 rest < 10 ^ rest.length := ofDigits_lt (by decide) others
    rw [List.map_cons, isHalf, Bool.and_eq_true, beq_iff_eq, five first small, zeros, ofDigits_cons,
      List.length_cons, Nat.pow_succ]
    generalize 10 ^ rest.length = unit at *
    constructor
    · rintro ⟨rfl, zero⟩
      omega
    · intro half
      interval_cases first <;> omega

/-! ## Increments -/

theorem incrementUpward_ne_nil (digits : List Char) : incrementUpward digits ≠ [] := by
  cases digits with
  | nil => exact List.cons_ne_nil _ _
  | cons c rest =>
    rw [incrementUpward]
    split <;> exact List.cons_ne_nil _ _

/-- Least significant first, the value grows by one. There is one digit more only if it is a one,
and otherwise no zero comes to the front. -/
theorem exists_incrementUpward {digits : List ℕ} (each : ∀ digit ∈ digits, digit < 10) :
    ∃ more, incrementUpward (digits.map (digitChar 10)) = more.map (digitChar 10) ∧
      (∀ digit ∈ more, digit < 10) ∧ Nat.ofDigits 10 more = Nat.ofDigits 10 digits + 1 ∧
      (more.length = digits.length ∧ (more.getLast? = some 0 → digits.getLast? = some 0) ∨
        more.length = digits.length + 1 ∧ more.getLast? = some 1) := by
  have nine : ∀ digit < 10, digitChar 10 digit = '9' ↔ digit = 9 := by decide
  have next : ∀ digit < 9,
      Char.ofNat ((digitChar 10 digit).toNat + 1) = digitChar 10 (digit + 1) := by decide
  induction digits with
  | nil => exact ⟨[1], rfl, by decide, rfl, .inr ⟨rfl, rfl⟩⟩
  | cons digit rest ih =>
    obtain ⟨small, others⟩ := List.forall_mem_cons.mp each
    rw [List.map_cons, incrementUpward]
    split
    · next carries =>
      obtain rfl := (nine digit small).mp carries
      obtain ⟨more, isMore, eachMore, value, last⟩ := ih others
      have some : more ≠ [] := fun empty =>
        incrementUpward_ne_nil (rest.map (digitChar 10)) (by rw [isMore, empty, List.map_nil])
      have kept : (0 :: more).getLast? = more.getLast? := by
        rw [List.getLast?_cons, List.getLast?_eq_some_getLast some, Option.getD_some]
      refine ⟨0 :: more, by rw [isMore]; rfl,
        List.forall_mem_cons.mpr ⟨by decide, eachMore⟩, ?_, ?_⟩
      · rw [Nat.ofDigits_cons, Nat.ofDigits_cons, value]
        ring
      · rw [List.length_cons, List.length_cons, kept]
        refine last.imp (fun ⟨length, leading⟩ => ⟨by rw [length], fun zero => ?_⟩)
          fun ⟨length, leading⟩ => ⟨by rw [length], leading⟩
        rw [List.getLast?_cons, leading zero, Option.getD_some]
    · next stays =>
      have less : digit < 9 := by
        have other := mt (nine digit small).mpr stays
        omega
      refine ⟨(digit + 1) :: rest, by rw [next digit less]; rfl,
        List.forall_mem_cons.mpr ⟨by omega, others⟩, ?_, .inl ⟨rfl, ?_⟩⟩
      · rw [Nat.ofDigits_cons, Nat.ofDigits_cons]
        ring
      · cases rest with
        | nil => simp
        | cons => exact id

/-- The digits of a numeral without superfluous zeros, as a natural, grow by one. -/
theorem exists_increment {numeral : Numeral} {places : ℕ} (isFixed : numeral.IsFixed places) :
    ∃ more, increment ((numeral.whole ++ numeral.fraction).map (digitChar 10)) =
        more.map (digitChar 10) ∧
      (∀ digit ∈ more, digit < 10) ∧ places < more.length ∧
      (more.head? = some 0 → more.length = places + 1) ∧
      ofDigits 10 more = ofDigits 10 (numeral.whole ++ numeral.fraction) + 1 := by
  have each : ∀ digit ∈ (numeral.whole ++ numeral.fraction).reverse, digit < 10 := by
    simp only [List.mem_reverse]
    exact List.forall_mem_append.mpr ⟨isFixed.whole, isFixed.fraction⟩
  obtain ⟨more, isMore, eachMore, value, last⟩ := exists_incrementUpward each
  have some := List.length_pos_of_ne_nil isFixed.whole_ne_nil
  have length : (numeral.whole ++ numeral.fraction).length = numeral.whole.length + places := by
    rw [List.length_append, isFixed.places]
  rw [List.length_reverse, length, List.getLast?_reverse,
    List.head?_append_of_ne_nil _ isFixed.whole_ne_nil] at last
  refine ⟨more.reverse, by rw [increment, ← List.map_reverse, isMore, List.map_reverse],
    fun digit isDigit => eachMore digit (List.mem_reverse.mp isDigit), ?_, fun zero => ?_, ?_⟩
  · rw [List.length_reverse]
    rcases last with ⟨same, -⟩ | ⟨longer, -⟩ <;> omega
  · rw [List.head?_reverse] at zero
    rw [List.length_reverse]
    rcases last with ⟨same, leading⟩ | ⟨-, one⟩
    · rw [same, isFixed.leading (leading zero), List.length_singleton, Nat.add_comm]
    · cases one.symm.trans zero
  · rw [ofDigits_eq, ofDigits_eq, List.reverse_reverse, value]

theorem insertPoint_map {digits : List ℕ} {places : ℕ} (enough : places < digits.length) :
    insertPoint (digits.map (digitChar 10)) places =
      Numeral.chars ⟨false, digits.take (digits.length - places),
        digits.drop (digits.length - places), none⟩ 10 true := by
  rw [insertPoint, Numeral.chars_eq]
  split
  · next none =>
    subst none
    simp [Numeral.fractionChars, Numeral.exponentChars]
  · next some =>
    have full : (digits.map (digitChar 10)).leftpad (places + 1) '0' =
        digits.map (digitChar 10) := by
      rw [List.leftpad, List.length_map, Nat.sub_eq_zero_of_le enough]
      rfl
    have behind : digits.drop (digits.length - places) ≠ [] := by
      rw [Ne, List.drop_eq_nil_iff]
      omega
    simp only [full, List.length_map]
    simp [Numeral.fractionChars, Numeral.exponentChars, behind, List.map_take, List.map_drop]

/-- The digits that are kept of a tie are incremented into those of the natural above. -/
theorem insertPoint_increment {numeral : Numeral} {places : ℕ} (isFixed : numeral.IsFixed places) :
    insertPoint (increment ((numeral.whole ++ numeral.fraction).map (digitChar 10))) places =
      (Numeral.ofScaled false (ofDigits 10 (numeral.whole ++ numeral.fraction) + 1) places).chars
        10 true := by
  obtain ⟨more, isMore, each, enough, leading, value⟩ := exists_increment isFixed
  obtain ⟨isScaled, digits⟩ := Numeral.ofScaled_digits false
    (ofDigits 10 (numeral.whole ++ numeral.fraction) + 1) places
  rw [isMore, insertPoint_map enough]
  congr 1
  have nonempty : more.take (more.length - places) ≠ [] := by
    rw [Ne, List.take_eq_nil_iff, ← List.length_eq_zero_iff]
    omega
  refine Numeral.IsFixed.ext ⟨?_, ?_, nonempty, ?_, ?_, rfl⟩ isScaled rfl ?_
  · exact fun digit isDigit => each digit (List.mem_of_mem_take isDigit)
  · exact fun digit isDigit => each digit (List.mem_of_mem_drop isDigit)
  · intro zero
    have first : more.head? = some 0 := by
      rwa [List.head?_take, if_neg (by omega)] at zero
    cases more with
    | nil => cases first
    | cons digit rest =>
      obtain rfl := Option.some.inj first
      rw [leading rfl, Nat.add_sub_cancel_left]
      rfl
  · rw [List.length_drop]
    omega
  · rw [List.take_append_drop, digits, value]

end Fixed

/-! ## The expansion to all places -/

namespace Double

open Fixed Magnitude

/-- Cutting an expansion is a division of the units, scaled by a power of five. -/
theorem expansion_factors (units places rest : ℕ) :
    units * 5 ^ (places + rest) = units * 5 ^ places * 5 ^ rest ∧
      10 ^ rest = 2 ^ rest * 5 ^ rest ∧
      units * 10 ^ places = units * 5 ^ places * 2 ^ places ∧
      2 ^ (places + rest) = 2 ^ rest * 2 ^ places := by
  have ten (exponent : ℕ) : 10 ^ exponent = 2 ^ exponent * 5 ^ exponent :=
    Nat.mul_pow 2 5 exponent
  refine ⟨by rw [Nat.pow_add, Nat.mul_assoc], ten rest, ?_, by rw [Nat.pow_add, Nat.mul_comm]⟩
  rw [ten, Nat.mul_comm (2 ^ places), Nat.mul_assoc]

theorem expansion_div (units places rest : ℕ) :
    units * 5 ^ (places + rest) / 10 ^ rest = units * 10 ^ places / 2 ^ (places + rest) := by
  obtain ⟨expansion, cut, scaled, unit⟩ := expansion_factors units places rest
  rw [expansion, cut, scaled, unit, Nat.mul_div_mul_right _ _ (Nat.pow_pos (by decide)),
    Nat.mul_div_mul_right _ _ (Nat.pow_pos (by decide))]

/-- What is cut off is one half in the expansion exactly if it is in the units. -/
theorem expansion_tie_iff (units places rest : ℕ) :
    2 * (units * 5 ^ (places + rest) % 10 ^ rest) = 10 ^ rest ↔
      2 * (units * 10 ^ places % 2 ^ (places + rest)) = 2 ^ (places + rest) := by
  obtain ⟨expansion, cut, scaled, unit⟩ := expansion_factors units places rest
  rw [expansion, cut, scaled, unit, Nat.mul_mod_mul_right, Nat.mul_mod_mul_right, ← Nat.mul_assoc,
    ← Nat.mul_assoc, Nat.mul_left_inj (Nat.pow_pos (by decide)).ne',
    Nat.mul_left_inj (Nat.pow_pos (by decide)).ne']

theorem roundHalfEven_expansion (units places : ℕ) :
    roundHalfEven (units * 10 ^ places) (2 ^ places) = units * 5 ^ places := by
  obtain ⟨-, -, scaled, -⟩ := expansion_factors units places 0
  have whole := roundHalfEven_mul_right (Nat.two_pow_pos places) (units * 5 ^ places) 1
  rw [Nat.one_mul] at whole
  rw [scaled, whole, roundHalfEven, Nat.div_one, Nat.mod_one, if_pos (by decide)]

variable {m : Magnitude}

theorem unitsPerOne_eq_exactPlaces : unitsPerOne = 2 ^ exactPlaces := by
  rw [unitsPerOne, exactPlaces]

/-- The formatter rounds nothing off an expansion to all places. -/
theorem formatted_exactPlaces (finite : m.isInfinite = false) :
    (signed false m).formatted exactPlaces =
      (Numeral.ofScaled false (m.units * 5 ^ exactPlaces) exactPlaces).chars 10 true := by
  rw [formatted, finite, if_neg Bool.false_ne_true, unitsPerOne_eq_exactPlaces,
    roundHalfEven_expansion]

theorem splitOnce?_point {numeral : Numeral} (unsigned : numeral.negative = false)
    (whole : ∀ digit ∈ numeral.whole, digit < 10) (fraction : numeral.fraction ≠ [])
    (exponent : numeral.exponent = none) :
    Scientific.splitOnce? '.' (numeral.chars 10 true) =
      some (numeral.whole.map (digitChar 10), numeral.fraction.map (digitChar 10)) := by
  have chars : numeral.chars 10 true =
      numeral.whole.map (digitChar 10) ++ '.' :: numeral.fraction.map (digitChar 10) := by
    rw [Numeral.chars_eq, unsigned, exponent]
    simp [Numeral.fractionChars, Numeral.exponentChars, fraction]
  rw [chars]
  apply Scientific.splitOnce?_append
  intro isDigit
  obtain ⟨digit, isMember, isPoint⟩ := List.mem_map.mp isDigit
  exact (Scientific.digitChar_unpointed digit (whole digit isMember)).2 isPoint

/-- A tie is found and rounded up, and nothing else is taken for one. -/
theorem roundExactTie?_eq (finite : m.isInfinite = false) {places : ℕ}
    (few : places < exactPlaces) :
    (signed false m).roundExactTie? places =
      if 2 * (m.units * 10 ^ places % unitsPerOne) = unitsPerOne then
        some ((Numeral.fixed false m.units unitsPerOne places).chars 10 true)
      else none := by
  obtain ⟨rest, total⟩ : ∃ rest, exactPlaces = places + (rest + 1) :=
    ⟨exactPlaces - places - 1, by omega⟩
  obtain ⟨isFixed, value⟩ := Numeral.ofScaled_digits false (m.units * 5 ^ exactPlaces) exactPlaces
  have expanded := formatted_exactPlaces finite
  have unsigned :
      (Numeral.ofScaled false (m.units * 5 ^ exactPlaces) exactPlaces).negative = false := rfl
  rw [roundExactTie?, unitsPerOne_eq_exactPlaces]
  generalize Numeral.ofScaled false (m.units * 5 ^ exactPlaces) exactPlaces = numeral at *
  have length := isFixed.places
  generalize exactPlaces = all at *
  subst total
  have some : numeral.fraction ≠ [] := List.ne_nil_of_length_pos (by omega)
  -- The digits behind the point are parted where the places end.
  have kept : Numeral.IsFixed ⟨false, numeral.whole, numeral.fraction.take places, none⟩ places :=
    ⟨isFixed.whole, fun digit isDigit => isFixed.fraction digit (List.mem_of_mem_take isDigit),
      isFixed.whole_ne_nil, isFixed.leading, by rw [List.length_take]; omega, rfl⟩
  have cut : ∀ digit ∈ numeral.fraction.drop places, digit < 10 := fun digit isDigit =>
    isFixed.fraction digit (List.mem_of_mem_drop isDigit)
  have count : (numeral.fraction.drop places).length = rest + 1 := by
    rw [List.length_drop]
    omega
  have parts := ofDigits_div_mod (by decide) (numeral.whole ++ numeral.fraction.take places) cut
  rw [List.append_assoc, List.take_append_drop, value, count] at parts
  have half := isHalf_iff cut
  rw [count, parts.2, expansion_tie_iff] at half
  simp only [expanded, Option.bind_eq_bind, Option.bind_some,
    splitOnce?_point unsigned isFixed.whole some isFixed.exponent,
    Scientific.splitInside?_map (show places ≤ numeral.fraction.length by omega)]
  rw [← List.map_append]
  by_cases tie : 2 * (m.units * 10 ^ places % 2 ^ (places + (rest + 1))) = 2 ^ (places + (rest + 1))
  · rw [if_pos (half.mpr tie), if_pos tie, insertPoint_increment kept, parts.1, expansion_div,
      Numeral.fixed, roundHalfUp_of_tie (Nat.two_pow_pos _) tie]
  · rw [if_neg (mt half.mp tie), if_neg tie]

/-- Whichever way it takes, a number that is not negative is rounded once, a half up. -/
theorem rounded_eq (finite : m.isInfinite = false) {places : ℕ} (few : places < exactPlaces) :
    ((signed false m).roundExactTie? places).getD ((signed false m).formatted places) =
      (Numeral.fixed false m.units unitsPerOne places).chars 10 true := by
  have positive := unitsPerOne_pos
  rw [roundExactTie?_eq finite few, formatted, finite, if_neg Bool.false_ne_true, Numeral.fixed]
  generalize unitsPerOne = one at *
  split
  · exact Option.getD_some
  · next noTie => rw [Option.getD_none, roundHalfEven_eq_roundHalfUp positive noTie]

end Double

end ScriptCore
