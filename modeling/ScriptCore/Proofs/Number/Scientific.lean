import ScriptCore.Number.Scientific
import ScriptCore.Proofs.Number.RoundTrip

/-! # The text of a number from its scientific notation

In the scientific notation of a decimal the first `e` is the one before the exponent, the exponent
reads back, and without the point the mantissa is the digits again. Setting the point anew then never
asks for more digits than there are, and gives the characters of the layout.
-/

namespace ScriptCore

namespace Scientific

theorem digitChar_unpointed : ∀ digit < 10, digitChar 10 digit ≠ 'e' ∧ digitChar 10 digit ≠ '.' := by
  decide

/-! ## Taking the notation apart -/

theorem splitOnce?_append {separator : Char} {before : List Char} (plain : separator ∉ before)
    (after : List Char) : splitOnce? separator (before ++ separator :: after) = some (before, after) := by
  induction before with
  | nil => simp [splitOnce?]
  | cons c before ih =>
    rw [List.mem_cons, not_or] at plain
    rw [List.cons_append, splitOnce?, if_neg (Ne.symm plain.1), ih plain.2]
    rfl

theorem readInt32?_renderExponent {exponent : Int} (small : exponent.natAbs < 2 ^ 31) :
    readInt32? (Numeral.renderExponent false exponent) = some exponent := by
  obtain ⟨rest, digit, digits, signed, taken, value⟩ :=
    Numeral.exists_taken_renderExponent false exponent
  unfold readInt32?
  simp only [signed, taken, value, Numeral.apply_sign_natAbs]
  rw [Int32.toInt_minValue, Int32.toInt_maxValue, if_pos (by omega)]

theorem splitInside?_map {count : Nat} {digits : List Nat} (inside : count ≤ digits.length) :
    splitInside? count (digits.map (digitChar 10)) =
      some ((digits.take count).map (digitChar 10), (digits.drop count).map (digitChar 10)) := by
  rw [splitInside?, if_pos (by rwa [List.length_map]), List.map_take, List.map_drop]

/-- No digit is lost, and no split is asked for beyond the last one. -/
theorem set?_eq {digits : List Nat} (nonempty : digits ≠ []) (point : Int) :
    set? (digits.map (digitChar 10)) (point - 1) =
      some ((Double.layout.numeral false digits point).chars 10 true) := by
  have positive := List.length_pos_of_ne_nil nonempty
  have zeros (count : Nat) :
      List.replicate count '0' = (List.replicate count 0).map (digitChar 10) := by simp [digitChar]
  have least : Double.layout.leastPoint = -5 := rfl
  have greatest : Double.layout.greatestPoint = 21 := rfl
  unfold set? Layout.numeral
  simp only [Int.sub_add_cancel, List.length_map, least, greatest]
  by_cases padded : digits.length ≤ point ∧ point ≤ 21
  · have count : (point - digits.length).toNat = point.toNat - digits.length := by omega
    rw [if_pos padded, if_pos (by omega), if_pos padded.1, Numeral.chars_eq, zeros, count]
    simp [Double.layout, Numeral.fractionChars, Numeral.exponentChars]
  · rw [if_neg padded]
    by_cases inside : 0 < point ∧ point ≤ 21
    · have some : digits.drop point.toNat ≠ [] := by
        rw [Ne, List.drop_eq_nil_iff]
        omega
      rw [if_pos inside, if_pos (by omega), if_neg (by omega), if_pos inside.1, Numeral.chars_eq,
        splitInside?_map (by omega)]
      simp [Numeral.fractionChars, Numeral.exponentChars, some]
    · rw [if_neg inside]
      by_cases before : -6 < point ∧ point ≤ 0
      · rw [if_pos before, if_pos (by omega), if_neg (by omega), if_neg (by omega), Numeral.chars_eq,
          zeros]
        simp [Numeral.fractionChars, Numeral.exponentChars, nonempty, digitChar]
      · have outside : ¬ (-5 ≤ point ∧ point ≤ 21) := by omega
        rw [if_neg before, if_neg outside, Numeral.chars_eq, splitInside?_map positive]
        obtain ⟨digit, rest, rfl⟩ := List.exists_cons_of_ne_nil nonempty
        by_cases below : point < 1 <;>
          simp [Numeral.fractionChars, Numeral.exponentChars, Numeral.renderExponent, below]

/-- The digits with a point among them. -/
def mantissa (count : Nat) (digits : List Nat) : List Char :=
  (digits.take count).map (digitChar 10) ++ Numeral.fractionChars (digits.drop count)

theorem mantissa_marks {digits : List Nat} (each : ∀ digit ∈ digits, digit < 10) (count : Nat) :
    'e' ∉ mantissa count digits ∧
      (mantissa count digits).filter (· ≠ '.') = digits.map (digitChar 10) := by
  have marks (part : List Nat) (isPart : part ⊆ digits) :
      ∀ c ∈ part.map (digitChar 10), c ≠ 'e' ∧ c ≠ '.' := by
    intro c isChar
    obtain ⟨digit, isDigit, rfl⟩ := List.mem_map.mp isChar
    exact digitChar_unpointed digit (each digit (isPart isDigit))
  have kept (part : List Nat) (isPart : part ⊆ digits) :
      (part.map (digitChar 10)).filter (· ≠ '.') = part.map (digitChar 10) := by
    apply List.filter_eq_self.mpr
    intro c isChar
    exact decide_eq_true (marks part isPart c isChar).2
  have first := List.take_subset count digits
  have later := List.drop_subset count digits
  have fraction : 'e' ∉ Numeral.fractionChars (digits.drop count) ∧
      (Numeral.fractionChars (digits.drop count)).filter (· ≠ '.') =
        (digits.drop count).map (digitChar 10) := by
    rw [Numeral.fractionChars]
    split
    · next none => simp [List.isEmpty_iff.mp none]
    · rw [List.filter_cons_of_neg (by decide), kept _ later, List.mem_cons, not_or]
      exact ⟨⟨by decide, fun isChar => (marks _ later _ isChar).1 rfl⟩, rfl⟩
  constructor
  · rw [mantissa, List.mem_append, not_or]
    exact ⟨fun isChar => (marks _ first _ isChar).1 rfl, fraction.1⟩
  · rw [mantissa, List.filter_append, kept _ first, fraction.2, ← List.map_append,
      List.take_append_drop]

/-- The characters of the layout, whatever the sign. -/
theorem rewrite?_scientific (negative : Bool) {d : Decimal} (small : (d.point - 1).natAbs < 2 ^ 31) :
    rewrite? negative (d.scientific.chars 10 false) =
      some ((Double.layout.numeral negative d.digits d.point).chars 10 true) := by
  have signed : (Double.layout.numeral negative d.digits d.point).chars 10 true =
      if negative then '-' :: (Double.layout.numeral false d.digits d.point).chars 10 true
      else (Double.layout.numeral false d.digits d.point).chars 10 true := by
    cases negative
    · rfl
    · rw [if_pos rfl]
      unfold Layout.numeral
      split_ifs <;> rfl
  have form : d.scientific.chars 10 false =
      mantissa 1 d.digits ++ 'e' :: Numeral.renderExponent false (d.point - 1) := by
    rw [Numeral.chars_eq, mantissa, List.append_assoc]
    rfl
  have each : ∀ digit ∈ d.digits, digit < 10 := digitsOf_lt (by decide) d.coefficient
  have nonempty : d.digits ≠ [] := digitsOf_ne_nil (by decide) d.coefficient
  obtain ⟨unmarked, digits⟩ := mantissa_marks each 1
  simp only [rewrite?, form, splitOnce?_append unmarked, Option.bind_eq_bind, Option.bind_some,
    readInt32?_renderExponent small, digits, set?_eq nonempty, signed]
  cases negative <;> rfl

end Scientific

end ScriptCore
