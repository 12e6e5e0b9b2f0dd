import ScriptCore.Proofs.Number.Radix.Digits
import ScriptCore.Proofs.Number.RoundTrip

/-! # Numbers read back from a radix

A numeral in any radix is read digit by digit, and its value, an exact fraction, is rounded once. A
number reads back from its text in ten, where the digits are those of its shortest decimal, and in
every radix in which its digits come without rounding. Elsewhere it need not: the digits are told
from the next greater double only, while below a power of two the gap is half as wide.
-/

namespace ScriptCore

open Magnitude (IsExact unitsPerOne infinityRank)

namespace Numeral

/-- Reads a numeral in a radix. Only decimal ones have an exponent. -/
def readIn? (radix : Nat) (text : List Char) : Option Numeral :=
  if radix = 10 then read? text
  else
    let (negative, rest) := takeSign text
    do
      let whole ← (rest.takeWhile (· != '.')).mapM (digitValue? radix)
      let fraction ← ((rest.dropWhile (· != '.')).drop 1).mapM (digitValue? radix)
      return ⟨negative, whole, fraction, none⟩

/-- The number that a numeral in a radix denotes, up to its sign. -/
def valueIn (radix : Nat) (numeral : Numeral) : ℚ :=
  ofDigits radix (numeral.whole ++ numeral.fraction) * (radix : ℚ) ^ numeral.scale

end Numeral

namespace Double

/-- The double nearest to the value of a numeral in a radix, ties to even. -/
def ofNumeral (radix : Nat) (numeral : Numeral) : Double :=
  ofRatio numeral.negative
    (ofDigits radix (numeral.whole ++ numeral.fraction) * radix ^ numeral.scale.toNat)
    (radix ^ (-numeral.scale).toNat)

/-- The number that a text reads as in a radix, if it is a numeral. -/
def ofTextIn (radix : Nat) (text : String) : Option Double :=
  (Numeral.readIn? radix text.toList).map (ofNumeral radix)

end Double

variable {radix : Nat} {m : Magnitude}

theorem Magnitude.Attracts.ofNumeral_eq {numeral : Numeral} (positive : 0 < radix)
    (finite : m.rank < infinityRank)
    (attracted : m.Attracts (numeral.valueIn radix * unitsPerOne)) :
    Double.ofNumeral radix numeral = .signed numeral.negative m := by
  have fraction : numeral.valueIn radix * unitsPerOne =
      (ofDigits radix (numeral.whole ++ numeral.fraction) * radix ^ numeral.scale.toNat *
        unitsPerOne : Nat) / (radix ^ (-numeral.scale).toNat : Nat) := by
    rw [Numeral.valueIn, zpow_eq_pow_div_pow]
    generalize unitsPerOne = unit
    push_cast
    ring
  rw [fraction] at attracted
  rw [Double.ofNumeral, Double.ofRatio, Double.nearest,
    attracted.nearest_eq finite (Nat.pow_pos positive)]

namespace Numeral

/-! ## Digits read back -/

/-- A digit is written alike in all radices that have it. -/
theorem digitChar_eq {digit : Nat} (small : radix ≤ 36) (isDigit : digit < radix) :
    digitChar radix digit = digitChar 36 digit := by
  rw [digitChar, digitChar, if_neg (Nat.not_le.mpr isDigit),
    if_neg (Nat.not_le.mpr (isDigit.trans_le small))]

/-- What has a value in the greatest radix has it in all radices beyond the value. -/
theorem digitValue?_of_lt {c : Char} {digit : Nat} (value : digitValue? 36 c = some digit)
    (isDigit : digit < radix) : digitValue? radix c = some digit := by
  have kept {code : Nat} (found : (if code < 36 then some code else none) = some digit) :
      (if code < radix then some code else none) = some digit := by
    obtain ⟨-, same⟩ := Option.ite_none_right_eq_some.mp found
    obtain rfl := Option.some.inj same
    exact if_pos isDigit
  unfold digitValue? at value ⊢
  dsimp only at value ⊢
  by_cases decimal : ('0'.toNat ≤ c.toNat && c.toNat ≤ '9'.toNat) = true
  · rw [if_pos decimal] at value ⊢
    exact kept value
  by_cases small : ('a'.toNat ≤ c.toNat && c.toNat ≤ 'z'.toNat) = true
  · rw [if_neg decimal, if_pos small] at value ⊢
    exact kept value
  by_cases capital : ('A'.toNat ≤ c.toNat && c.toNat ≤ 'Z'.toNat) = true
  · rw [if_neg decimal, if_neg small, if_pos capital] at value ⊢
    exact kept value
  · rw [if_neg decimal, if_neg small, if_neg capital, if_neg (Nat.lt_irrefl 36)] at value
    contradiction

theorem digitValue?_digitChar_of_le (radix : Nat) (small : radix ≤ 36) (digit : Nat)
    (isDigit : digit < radix) : digitValue? radix (digitChar radix digit) = some digit := by
  have value : ∀ digit < 36, digitValue? 36 (digitChar 36 digit) = some digit := by decide
  rw [digitChar_eq small isDigit]
  exact digitValue?_of_lt (value digit (by omega)) isDigit

theorem digitChar_unmarked (radix : Nat) (small : radix ≤ 36) (digit : Nat)
    (isDigit : digit < radix) :
    digitChar radix digit ≠ '-' ∧ digitChar radix digit ≠ '+' ∧ digitChar radix digit ≠ '.' := by
  have unmarked : ∀ digit < 36, digitChar 36 digit ≠ '-' ∧ digitChar 36 digit ≠ '+' ∧
      digitChar 36 digit ≠ '.' := by decide
  rw [digitChar_eq small isDigit]
  exact unmarked digit (by omega)

theorem mapM_digitValue? (small : radix ≤ 36) {digits : List Nat}
    (each : ∀ digit ∈ digits, digit < radix) :
    (digits.map (digitChar radix)).mapM (digitValue? radix) = some digits := by
  induction digits with
  | nil => rfl
  | cons digit digits ih =>
    have value := digitValue?_digitChar_of_le radix small digit (each digit (List.mem_cons_self ..))
    have following := ih fun other isDigit => each other (List.mem_cons_of_mem _ isDigit)
    rw [List.map_cons, List.mapM_cons, value, following]
    rfl

/-- A numeral without exponent whose digits the radix has. -/
structure LegibleIn (radix : Nat) (numeral : Numeral) : Prop where
  whole : ∀ digit ∈ numeral.whole, digit < radix
  fraction : ∀ digit ∈ numeral.fraction, digit < radix
  whole_ne_nil : numeral.whole ≠ []
  exponent : numeral.exponent = none

/-- The point and the digits after it, if there are any. -/
def pointed (radix : Nat) (fraction : List Nat) : List Char :=
  if fraction.isEmpty then [] else '.' :: fraction.map (digitChar radix)

theorem chars_eq_pointed {numeral : Numeral} (plain : numeral.exponent = none) (plus : Bool) :
    numeral.chars radix plus = (if numeral.negative then ['-'] else []) ++
      (numeral.whole.map (digitChar radix) ++ pointed radix numeral.fraction) := by
  rw [chars, plain, List.append_nil, List.append_assoc]
  rfl

theorem takeSign_chars {numeral : Numeral} (small : radix ≤ 36)
    (legible : numeral.LegibleIn radix) (plus : Bool) :
    takeSign (numeral.chars radix plus) = (numeral.negative,
      numeral.whole.map (digitChar radix) ++ pointed radix numeral.fraction) := by
  rw [chars_eq_pointed legible.exponent]
  have nonempty := legible.whole_ne_nil
  have each := legible.whole
  cases numeral.negative with
  | true => rfl
  | false =>
    generalize numeral.whole = whole at *
    cases whole with
    | nil => exact absurd rfl nonempty
    | cons digit rest =>
      have first := digitChar_unmarked radix small digit (each digit (List.mem_cons_self ..))
      exact takeSign_of_unsigned (by simp [first.1]) (by simp [first.2.1])

theorem readIn?_chars {numeral : Numeral} (small : radix ≤ 36) (notTen : radix ≠ 10)
    (legible : numeral.LegibleIn radix) (plus : Bool) :
    readIn? radix (numeral.chars radix plus) = some numeral := by
  have unpointed : ∀ c ∈ numeral.whole.map (digitChar radix), (c != '.') = true := by
    intro c isDigit
    obtain ⟨digit, isWhole, rfl⟩ := List.mem_map.mp isDigit
    exact bne_iff_ne.mpr (digitChar_unmarked radix small digit (legible.whole digit isWhole)).2.2
  have ended : (pointed radix numeral.fraction).takeWhile (· != '.') = [] := by
    unfold pointed
    split <;> rfl
  have rest : ((pointed radix numeral.fraction).dropWhile (· != '.')).drop 1 =
      numeral.fraction.map (digitChar radix) := by
    unfold pointed
    cases numeral.fraction <;> rfl
  rw [readIn?, if_neg notTen, takeSign_chars small legible]
  dsimp only
  rw [List.takeWhile_append_of_pos unpointed, ended, List.append_nil,
    List.dropWhile_append_of_pos unpointed, rest, mapM_digitValue? small legible.whole,
    mapM_digitValue? small legible.fraction]
  obtain ⟨negative, whole, fraction, exponent⟩ := numeral
  cases legible.exponent
  rfl

/-! ## Numerals in a radix -/

theorem inRadix_signed (radix : Nat) (negative : Bool) (m : Magnitude) :
    inRadix radix (.signed negative m) =
      let result := fractionPart radix m
      let whole := (Double.signed false m).truncate
      let whole := if result.2 then whole + 1 else whole
      let dropped := dropInexact (.ofNat radix) 1100 whole 0
      ⟨(Double.signed negative m).less 0,
        wholeDigits (.ofNat radix) 1100 dropped.1 (List.replicate dropped.2 0),
        result.1.reverse, none⟩ := by
  have size : (Double.signed negative m).abs = .signed false m := rfl
  rcases computed : fractionPart radix m with ⟨digits, carry⟩
  rw [fractionPart] at computed
  rw [inRadix, size]
  dsimp only at computed ⊢
  rw [computed]

/-- The whole part takes in the carry from the fraction. -/
theorem carried_eq (finite : m.rank < infinityRank) (carry : Bool) :
    (if carry then (Double.signed false m).truncate + 1 else (Double.signed false m).truncate) =
      .ofUnits ((m.units / unitsPerOne + carry.toNat) * unitsPerOne) := by
  have exact : IsExact m.units := ⟨m, finite, rfl⟩
  rw [← Double.ofUnits_units, Double.truncate_ofUnits exact]
  cases carry with
  | false => rw [if_neg Bool.false_ne_true, Bool.toNat_false, Nat.add_zero]
  | true =>
    rw [if_pos rfl, Double.ofNat_one, Double.ofUnits_add exact.floor .one, Bool.toNat_true,
      Nat.add_mul, Nat.one_mul]

theorem valueIn_eq {numeral : Numeral} {result : List Nat × Bool} (positive : 0 < radix)
    (whole : ofDigits radix numeral.whole = m.units / unitsPerOne + result.2.toNat)
    (fraction : numeral.fraction = result.1.reverse) (plain : numeral.exponent = none) :
    numeral.valueIn radix * unitsPerOne = Magnitude.digitUnits radix m result := by
  have power : (radix : ℚ) ^ result.1.length ≠ 0 :=
    pow_ne_zero _ (Nat.cast_ne_zero.mpr positive.ne')
  have digits : ofDigits radix (numeral.whole ++ numeral.fraction) =
      m.units / unitsPerOne * radix ^ result.1.length + carriedValue radix result := by
    rw [ofDigits_append, whole, fraction, List.length_reverse, carriedValue, Nat.add_mul,
      Nat.add_assoc]
  have scale : numeral.scale = -(result.1.length : Int) := by
    rw [Numeral.scale, plain, fraction, List.length_reverse, Option.getD_none, zero_sub]
  rw [valueIn, digits, scale, Magnitude.digitUnits, zpow_neg, zpow_natCast]
  generalize m.units / unitsPerOne = ones
  generalize unitsPerOne = unit
  push_cast
  field_simp

/-- The digits of a whole part that is exact with the carry, and those of the fraction. -/
theorem inRadix_eq (large : 1 < radix) (small : radix ≤ 36) (finite : m.rank < infinityRank)
    (whole : WholeIsExact radix (m.units / unitsPerOne + (fractionPart radix m).2.toNat))
    (bounded : m.units / unitsPerOne + (fractionPart radix m).2.toNat < 2 ^ 1024)
    (negative : Bool) :
    inRadix radix (.signed negative m) =
      ⟨(Double.signed negative m).less 0,
        digitsOf radix (m.units / unitsPerOne + (fractionPart radix m).2.toNat),
        (fractionPart radix m).1.reverse, none⟩ := by
  have digits := whole.digits_eq large small bounded
  dsimp only at digits
  rw [inRadix_signed]
  dsimp only
  rw [carried_eq finite, digits]

theorem legibleIn_digitsOf (large : 1 < radix) {digits : List Nat}
    (each : ∀ digit ∈ digits, digit < radix) (negative : Bool) (whole : Nat) :
    LegibleIn radix ⟨negative, digitsOf radix whole, digits.reverse, none⟩ where
  whole := digitsOf_lt large whole
  fraction digit isDigit := each digit (List.mem_reverse.mp isDigit)
  whole_ne_nil := digitsOf_ne_nil large whole
  exponent := rfl

/-- The numeral of a magnitude in a radix in which it fits has digits of the radix, and the
magnitude attracts its value. -/
theorem inRadix_attracted (large : 1 < radix) (small : radix ≤ 36) (fits : m.FitsIn radix)
    (finite : m.rank < infinityRank) (negative : Bool) :
    let numeral := inRadix radix (.signed negative m)
    numeral.negative = (Double.signed negative m).less 0 ∧ numeral.LegibleIn radix ∧
      m.Attracts (numeral.valueIn radix * unitsPerOne) := by
  obtain ⟨each, whole, bounded, attracted⟩ := fits.readBack large small finite
  rw [inRadix_eq large small finite whole bounded]
  refine ⟨rfl, legibleIn_digitsOf large each _ _, ?_⟩
  rw [valueIn_eq (by omega) (ofDigits_digitsOf large _) rfl rfl]
  exact attracted

end Numeral

/-! ## Numbers read back -/

namespace Double

theorem ofTextIn_render {numeral : Numeral} {radix : Nat} (positive : 0 < radix)
    (finite : m.rank < infinityRank)
    (read : Numeral.readIn? radix (numeral.chars radix true) = some numeral)
    (attracted : m.Attracts (numeral.valueIn radix * unitsPerOne)) :
    ofTextIn radix (numeral.render radix true) = some (signed numeral.negative m) := by
  rw [ofTextIn, Numeral.render, String.toList_ofList, read, Option.map_some,
    attracted.ofNumeral_eq positive finite]

theorem ofTextIn_text (negative : Bool) (finite : m.rank < infinityRank) :
    ofTextIn 10 (signed negative m).text = some (signed ((signed negative m).less 0) m) := by
  by_cases none : m = .zero
  · subst none
    cases negative <;> decide +kernel
  · have nonzero := Magnitude.rank_pos none
    have legible := (Double.layout.written_isStrict negative nonzero finite).toLegible
    have attracted := Double.layout.written_attracts negative nonzero
    have sign := Double.layout.written_negative negative m
    rw [text_eq_write negative nonzero finite, Layout.write_eq, less_zero nonzero]
    generalize Double.layout.written negative m = numeral at *
    subst sign
    have read : Numeral.readIn? 10 (numeral.chars 10 true) = some numeral := by
      rw [Numeral.readIn?, if_pos rfl, Numeral.read?_chars legible]
    have value : numeral.valueIn 10 = numeral.value := by
      rw [Numeral.valueIn, Numeral.value, Nat.cast_ofNat]
    exact ofTextIn_render (by decide) finite read (value ▸ attracted)

/-- A finite number reads back from its text in ten and in each radix in which it fits, negative
zero as zero. -/
theorem ofTextIn_textInRadix (negative : Bool) (m : Magnitude) (finite : m.rank < infinityRank)
    {radix : Nat} (least : 2 ≤ radix) (greatest : radix ≤ 36)
    (fits : radix = 10 ∨ m.FitsIn radix) :
    ofTextIn radix ((signed negative m).textInRadix radix) =
      some (if signed negative m = negativeZero then zero else signed negative m) := by
  have sign : signed ((signed negative m).less 0) m =
      if signed negative m = negativeZero then zero else signed negative m := by
    by_cases none : m = .zero
    · subst none
      cases negative <;> decide +kernel
    · rw [less_zero (Magnitude.rank_pos none), if_neg (by simp [negativeZero, none])]
  have isFinite : (signed negative m).isFinite = true := by
    rw [Double.isFinite, isInfinite_eq_false finite, Bool.not_false]
  rw [← sign, textInRadix]
  by_cases ten : radix = 10
  · subst ten
    exact ofTextIn_text negative finite
  · have fitting := fits.resolve_left ten
    obtain ⟨signed, legible, attracted⟩ :=
      Numeral.inRadix_attracted least greatest fitting finite negative
    have read := Numeral.readIn?_chars greatest ten legible true
    rw [if_neg (by simp [ten, isFinite]), ofTextIn_render (by omega) finite read attracted, signed]

theorem ofTextIn_textInRadix_seven :
    let m : Magnitude := ⟨0x4004000000000000, by decide⟩
    m.rank < infinityRank ∧ 2 ≤ 7 ∧ 7 ≤ 36 ∧ m.FitsIn 7 ∧
      ofTextIn 7 ((signed true m).textInRadix 7) = some (signed true m) := by
  intro m
  have finite : m.rank < infinityRank := by decide
  have fits : m.FitsIn (7 * 2 ^ 0) :=
    .grid 7 0 1 (by decide) (by decide +kernel) (.inr (by decide +kernel)) (by decide +kernel)
  have reads := ofTextIn_textInRadix true m finite (by decide) (by decide) (.inr fits)
  rw [if_neg (by decide)] at reads
  exact ⟨finite, by decide, by decide, fits, reads⟩

/-- One half has the digits of its lower neighbour in five: they are told from the next greater
double, whose distance is twice that of the one below. -/
theorem half_reads_lower_in_five :
    ofTextIn 5 (half.textInRadix 5) = some (ofBits 0x3fdfffffffffffff) ∧
      ofBits 0x3fdfffffffffffff ≠ half := by
  have notTen : ¬ (decide (5 = 10) || !half.isFinite) = true := by decide +kernel
  refine ⟨?_, by decide +kernel⟩
  rw [ofTextIn, textInRadix, if_neg notTen, Numeral.render, String.toList_ofList]
  decide +kernel

end Double

end ScriptCore
