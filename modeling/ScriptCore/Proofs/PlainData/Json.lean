import ScriptCore.PlainData.Json
import ScriptCore.Proofs.Number.Arithmetic

/-! # Plain data through JSON

JSON has no undefined, no negative zero and no number that is not finite, so the way there and back
is a normal form of plain data rather than the identity. What that form keeps, JSON keeps: data and
its normal form have the same JSON.
-/

namespace ScriptCore

namespace Double

/-- A double without fractional part is the whole number of ones that its magnitude counts. -/
theorem wholeNat_mul_unitsPerOne {negative : Bool} {m : Magnitude}
    (integral : (signed negative m).isIntegral = true) :
    (signed negative m).wholeNat * Magnitude.unitsPerOne = m.units := by
  simp only [isIntegral, Bool.and_eq_true, Bool.not_eq_true', beq_iff_eq] at integral
  rw [wholeNat, integral.1, if_neg Bool.false_ne_true]
  exact Nat.div_mul_cancel (Nat.dvd_of_mod_eq_zero integral.2)

end Double

namespace PlainData

open Double (negativeZero zero)

/-- What JSON keeps of a number: the value of a finite one, and nothing of the others. -/
def numberNorm (n : Double) : Primitive :=
  if !n.isFinite then .null
  else .number (if n = negativeZero then zero else n)

def primitiveNorm : Primitive → Primitive
  | .null | .undefined => .null
  | .boolean b => .boolean b
  | .number n => numberNorm n
  | .string s => .string s

mutual

/-- Data without what JSON cannot tell: undefined members are left out, undefined anywhere else is
null. The order of items and members stays. -/
def norm : PlainData → PlainData
  | primitive p => primitive (primitiveNorm p)
  | array items => array (normAll items)
  | object members => object (normMembers members)

def normAll : List PlainData → List PlainData
  | [] => []
  | item :: rest => norm item :: normAll rest

def normMembers : List (String × PlainData) → List (String × PlainData)
  | [] => []
  | (key, item) :: rest =>
    if isUndefined item then normMembers rest else (key, norm item) :: normMembers rest

end

/-! ## From JSON -/

theorem ofInt_integerOf {n : Double} (integral : n.isIntegral = true) :
    Double.ofInt (integerOf (n.less 0) n) = if n = negativeZero then zero else n := by
  cases n with
  | nan => simp [Double.isIntegral] at integral
  | signed negative m =>
    by_cases none : m = .zero
    · subst none
      cases negative <;> decide +kernel
    · have nonzero := Magnitude.rank_pos none
      have proper : Double.signed negative m ≠ negativeZero := by
        rintro equal
        exact none (Double.signed.inj equal).2
      have value := Double.wholeNat_mul_unitsPerOne integral
      have positive : 0 < (Double.signed negative m).wholeNat := by
        refine Nat.pos_of_ne_zero fun empty => ?_
        rw [empty, Nat.zero_mul] at value
        exact absurd (Magnitude.pred_lt_units nonzero) (value ▸ Nat.not_lt_zero _)
      rw [if_neg proper, Double.less_zero nonzero, integerOf]
      generalize (Double.signed negative m).wholeNat = count at *
      have sign : decide ((if negative then -(count : Int) else count) < 0) = negative := by
        cases negative <;> simp [positive]
      have size : (if negative then -(count : Int) else count).natAbs = count := by
        cases negative <;> simp
      rw [Double.ofInt, Double.ofRatio, sign, size, value, Double.nearest, ← Nat.one_mul m.units,
        m.nearest_units Nat.one_pos]

theorem ofJson_numberToJson (n : Double) : ofJson (numberToJson n) = primitive (numberNorm n) := by
  rw [numberToJson, numberNorm]
  split
  · rw [ofJson]
  · split
    · next whole =>
      rw [Bool.and_eq_true] at whole
      rw [ofJson, ofInt_integerOf whole.1]
    · next fractional =>
      have proper : n ≠ negativeZero := by
        rintro rfl
        exact fractional (by decide +kernel)
      rw [ofJson, if_neg proper]

theorem ofJson_primitiveToJson (p : Primitive) :
    ofJson (primitiveToJson p) = primitive (primitiveNorm p) := by
  cases p with
  | number n => exact ofJson_numberToJson n
  | null | undefined | boolean | string => rw [primitiveToJson, ofJson, primitiveNorm]

mutual

theorem ofJson_toJson : ∀ data : PlainData, ofJson data.toJson = data.norm
  | primitive p => by rw [toJson, norm, ofJson_primitiveToJson]
  | array items => by rw [toJson, norm, ofJson, ofJsonAll_toJsonAll items]
  | object members => by rw [toJson, norm, ofJson, ofJsonMembers_toJsonMembers members]

theorem ofJsonAll_toJsonAll : ∀ items : List PlainData,
    ofJsonAll (toJsonAll items) = normAll items
  | [] => by rw [toJsonAll, ofJsonAll, normAll]
  | item :: rest => by
    rw [toJsonAll, ofJsonAll, normAll, ofJson_toJson item, ofJsonAll_toJsonAll rest]

theorem ofJsonMembers_toJsonMembers : ∀ members : List (String × PlainData),
    ofJsonMembers (toJsonMembers members) = normMembers members
  | [] => by rw [toJsonMembers, ofJsonMembers, normMembers]
  | (key, item) :: rest => by
    rw [toJsonMembers, normMembers]
    split
    · exact ofJsonMembers_toJsonMembers rest
    · rw [ofJsonMembers, ofJson_toJson item, ofJsonMembers_toJsonMembers rest]

end

/-! ## The normal form -/

theorem numberToJson_zero (negative : Bool) :
    numberToJson (.signed negative .zero) = .integer 0 := by
  have whole : integerOf ((Double.signed negative .zero).less 0) (.signed negative .zero) = 0 := by
    cases negative <;> decide +kernel
  rw [numberToJson, if_neg, if_pos, whole]
  · cases negative <;> decide +kernel
  · cases negative <;> decide

theorem primitiveToJson_numberNorm (n : Double) :
    primitiveToJson (numberNorm n) = numberToJson n := by
  rw [numberNorm]
  split
  · next infinite => rw [primitiveToJson, numberToJson, if_pos infinite]
  · rw [primitiveToJson]
    split
    · next negative =>
      subst negative
      exact (numberToJson_zero false).trans (numberToJson_zero true).symm
    · rfl

theorem primitiveToJson_primitiveNorm (p : Primitive) :
    primitiveToJson (primitiveNorm p) = primitiveToJson p := by
  cases p with
  | number n => exact primitiveToJson_numberNorm n
  | null | undefined | boolean | string => rfl

theorem isUndefined_norm (data : PlainData) : data.norm.isUndefined = false := by
  cases data with
  | primitive p =>
    cases p with
    | number n =>
      rw [norm, primitiveNorm, numberNorm]
      split <;> rfl
    | null | undefined | boolean | string => rfl
  | array | object => rw [norm]; rfl

mutual

theorem toJson_norm : ∀ data : PlainData, data.norm.toJson = data.toJson
  | primitive p => by rw [norm, toJson, toJson, primitiveToJson_primitiveNorm]
  | array items => by rw [norm, toJson, toJson, toJsonAll_normAll items]
  | object members => by rw [norm, toJson, toJson, toJsonMembers_normMembers members]

theorem toJsonAll_normAll : ∀ items : List PlainData,
    toJsonAll (normAll items) = toJsonAll items
  | [] => by rw [normAll]
  | item :: rest => by
    rw [normAll, toJsonAll, toJsonAll, toJson_norm item, toJsonAll_normAll rest]

theorem toJsonMembers_normMembers : ∀ members : List (String × PlainData),
    toJsonMembers (normMembers members) = toJsonMembers members
  | [] => by rw [normMembers]
  | (key, item) :: rest => by
    rw [normMembers, toJsonMembers]
    split
    · exact toJsonMembers_normMembers rest
    · rw [toJsonMembers, isUndefined_norm, if_neg Bool.false_ne_true, toJson_norm item,
        toJsonMembers_normMembers rest]

end

/-- The way through JSON takes data to its normal form, where another one changes nothing. -/
theorem json_normalizes (data : PlainData) :
    ofJson data.toJson = data.norm ∧ data.norm.norm = data.norm ∧
      (ofJson data.toJson).toJson = data.toJson := by
  refine ⟨ofJson_toJson data, ?_, ?_⟩
  · rw [← ofJson_toJson data.norm, toJson_norm, ofJson_toJson]
  · rw [ofJson_toJson, toJson_norm]

end PlainData

end ScriptCore
