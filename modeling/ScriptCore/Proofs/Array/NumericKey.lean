import ScriptCore.Proofs.Array.Element
import ScriptCore.Proofs.Number.Natural

/-! # Numbers as keys of arrays

A number names the element that its text is the index of. Whether the text is an index numeral comes
down to what number it is: a natural is written as one up to `10^21`. Beyond `2^53`, where it may be
written as another one, no array has such an element.
-/

namespace ScriptCore

/-- The text of a number is an index numeral just for the naturals below `10^21`. -/
theorem Double.isIndexNumeral_text_iff {n : Double} :
    isIndexNumeral n.text.toList = true ↔
      ∃ k : ℕ, n.exactValue? = some (k : ℚ) ∧ k < 10 ^ 21 := by
  rw [isIndexNumeral_iff]
  constructor
  · rintro ⟨k, natural⟩
    exact exactValue?_of_text (String.toList_injective natural)
  · rintro ⟨k, isValue, small⟩
    obtain ⟨other, isText, -⟩ := exists_text_of_natural isValue small
    exact ⟨other, by rw [isText]⟩

/-- What is not a natural below `10^21`. -/
theorem Double.not_natural_iff {n : Double} :
    (¬ ∃ k : ℕ, n.exactValue? = some (k : ℚ) ∧ k < 10 ^ 21) ↔
      n.exactValue? = none ∨ ∃ value, n.exactValue? = some value ∧
        (value < 0 ∨ (¬ ∃ integer : ℤ, value = integer) ∨ 10 ^ 21 ≤ value) := by
  cases n.exactValue? with
  | none => simp
  | some value =>
    have large {k : ℕ} : (10 : ℚ) ^ 21 ≤ k ↔ 10 ^ 21 ≤ k := by exact_mod_cast Iff.rfl
    simp only [reduceCtorEq, false_or, Option.some.injEq, exists_eq_left']
    constructor
    · intro other
      by_contra! within
      obtain ⟨nonnegative, ⟨integer, rfl⟩, less⟩ := within
      obtain ⟨k, rfl⟩ := Int.eq_ofNat_of_zero_le (Int.cast_nonneg_iff.mp nonnegative)
      rw [Int.cast_natCast, ← not_le, large, Nat.not_le] at less
      exact other ⟨k, Int.cast_natCast k, less⟩
    · rintro outside ⟨k, rfl, small⟩
      obtain negative | fractional | beyond := outside
      · exact absurd negative (not_lt.mpr (Nat.cast_nonneg k))
      · exact fractional ⟨k, (Int.cast_natCast k).symm⟩
      · exact absurd (large.mp beyond) (Nat.not_le.mpr small)

namespace ArrayRef

variable {ref : ArrayRef} {heap : Heap} {n : Double} {range : Option SourceRange}

/-- A number that is not written as an index is no name of a member. -/
theorem read_of_unindexed (unindexed : isIndexNumeral n.text.toList = false) :
    ref.read (.number n) range heap = (.error ⟨.invalidIndex n.text, range⟩, heap) := by
  have unknown : Method.ofName? .array n.text = none := by
    rw [Option.eq_none_iff_forall_ne_some]
    intro method isMethod
    obtain filter | map := Method.ofName?_array isMethod
    · exact n.text_ne (by decide) (by decide) filter
    · exact n.text_ne (by decide) (by decide) map
  have named : (Value.number n).keyText? = some n.text := rfl
  rw [read_of_keyText? named, unindexed, if_neg Bool.false_ne_true,
    if_neg (n.text_ne (by decide) (by decide)), unknown]

/-- A natural names its element; one beyond `2^53` may be written as another, but neither is there. -/
theorem read_of_natural (short : (heap.elements ref).size ≤ 2 ^ 32 - 1) {k : ℕ}
    (isValue : n.exactValue? = some (k : ℚ)) (small : k < 10 ^ 21) :
    ref.read (.number n) range heap = (.ok (((heap.elements ref)[k]?).getD .undefined), heap) := by
  have greatest : greatestIndex = 2 ^ 32 - 2 := rfl
  obtain ⟨index, isText, own, beyond⟩ := Double.exists_text_of_natural isValue small
  have named : (Value.number n).keyText? = some (toString index) := congrArg some isText
  rw [read_of_index named]
  rcases Nat.lt_or_ge (2 ^ 53) k with large | within
  · have := beyond large
    rw [if_neg (by omega), Array.getElem?_eq_none (by omega), Option.getD_none]
  · obtain rfl := own within
    split
    · rfl
    · next above => rw [Array.getElem?_eq_none (by omega), Option.getD_none]

theorem keyText?_number_iff {k : ℕ} (small : k ≤ 2 ^ 53) :
    (Value.number n).keyText? = some (toString k) ↔ n.exactValue? = some (k : ℚ) := by
  rw [← Double.text_eq_toString_iff small]
  exact Option.some_inj

/-- Reading an array under a number fails, with a range error, just for a number that is not finite,
negative, not an integer or not below `10^21`. Any other is a natural, maybe as negative zero, and
gives its element, or undefined from the end of the array on. Writing succeeds just for the naturals
below the limit, and stores the element. -/
theorem elements_by_number (present : ref.index < heap.arrays.size) (n : Double) (value : Value)
    (range : Option SourceRange) :
    ((heap.elements ref).size ≤ 2 ^ 32 - 1 →
      ((∃ error, error.cause.errorClass = .range ∧
          ref.read (.number n) range heap = (.error error, heap)) ↔
        n.exactValue? = none ∨ ∃ value, n.exactValue? = some value ∧
          (value < 0 ∨ (¬ ∃ integer : ℤ, value = integer) ∨ 10 ^ 21 ≤ value)) ∧
      ∀ k : ℕ, n.exactValue? = some (k : ℚ) → k < 10 ^ 21 → ref.read (.number n) range heap =
        (.ok (((heap.elements ref)[k]?).getD .undefined), heap)) ∧
    ((∃ after, ref.write (.number n) value range heap = (.ok (), after)) ↔
      ∃ k : ℕ, n.exactValue? = some (k : ℚ) ∧ k < arrayLengthLimit) ∧
    ∀ k : ℕ, n.exactValue? = some (k : ℚ) → k < arrayLengthLimit →
      ∃ after, ref.write (.number n) value range heap = (.ok (), after) ∧
        ref.Stores k value heap after := by
  have named {k : ℕ} (below : k < arrayLengthLimit) :=
    keyText?_number_iff (n := n) (below.le.trans (show arrayLengthLimit ≤ 2 ^ 53 by decide))
  refine ⟨fun short => ⟨?_, fun k => read_of_natural short⟩, ?_, fun k isValue below => ?_⟩
  · rw [← Double.not_natural_iff]
    constructor
    · rintro ⟨error, -, fails⟩ ⟨k, isValue, small⟩
      rw [read_of_natural short isValue small] at fails
      cases fails
    · intro other
      rw [← Double.isIndexNumeral_text_iff, Bool.not_eq_true] at other
      exact ⟨_, rfl, read_of_unindexed other⟩
  · constructor
    · rintro ⟨after, succeeds⟩
      obtain ⟨k, below, isNamed, -⟩ := write_eq_ok_iff.mp succeeds
      exact ⟨k, (named below).mp isNamed, below⟩
    · rintro ⟨k, isValue, below⟩
      exact ⟨_, write_eq_ok_iff.mpr ⟨k, below, (named below).mpr isValue, rfl⟩⟩
  · refine ⟨_, write_eq_ok_iff.mpr ⟨k, below, (named below).mpr isValue, rfl⟩, ?_⟩
    exact stores_modifyElements present k value

/-- Negative zero reads and writes the first of two elements. -/
theorem elements_by_number_negativeZero :
    let heap : Heap := ⟨#[#[.null, .boolean true]], #[], #[]⟩
    let ref : ArrayRef := ⟨0⟩
    let n := Double.negativeZero
    ref.index < heap.arrays.size ∧ (heap.elements ref).size ≤ 2 ^ 32 - 1 ∧
      n.exactValue? = some ((0 : ℕ) : ℚ) ∧ 0 < 10 ^ 21 ∧ 0 < arrayLengthLimit ∧
      ref.read (.number n) none heap = (.ok .null, heap) ∧
      ∃ after, ref.write (.number n) (.boolean false) none heap = (.ok (), after) ∧
        ref.Stores 0 (.boolean false) heap after := by
  intro heap ref n
  have present : ref.index < heap.arrays.size := by decide
  have short : (heap.elements ref).size ≤ 2 ^ 32 - 1 := by decide
  have isValue : n.exactValue? = some ((0 : ℕ) : ℚ) := by decide +kernel
  obtain ⟨reads, -, writes⟩ := elements_by_number present n (.boolean false) none
  exact ⟨present, short, isValue, by decide, by decide, (reads short).2 0 isValue (by decide),
    writes 0 isValue (by decide)⟩

end ArrayRef

end ScriptCore
