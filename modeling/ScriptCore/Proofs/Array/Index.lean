import ScriptCore.Array.Index
import ScriptCore.Proofs.Number.Grammar

/-! # Index numerals

An index numeral is the text of a natural in ten, of whatever length, and of no other. An index is
read from it if it is not too great for an array. It is read as a word, and words have more texts
than indices; the check for an index numeral, which comes first, refuses the others.
-/

namespace ScriptCore

/-! ## Decimal digits -/

theorem isDecimalDigit_iff {c : Char} :
    isDecimalDigit c = true ↔ ∃ digit < 10, c = digitChar 10 digit := by
  constructor
  · intro isDigit
    have value : digitValue? 10 c = some (c.toNat - '0'.toNat) := by
      have nine : '9'.toNat = '0'.toNat + 9 := rfl
      rw [isDecimalDigit] at isDigit
      rw [digitValue?, if_pos isDigit, if_pos]
      rw [Bool.and_eq_true, decide_eq_true_iff, decide_eq_true_iff] at isDigit
      omega
    obtain ⟨small, isChar⟩ := digitValue?_eq_some value
    exact ⟨_, small, isChar.symm⟩
  · rintro ⟨digit, small, rfl⟩
    have each : ∀ digit < 10, isDecimalDigit (digitChar 10 digit) = true := by decide
    exact each digit small

theorem digitChar_eq_zero_iff : ∀ digit < 10, digitChar 10 digit = '0' ↔ digit = 0 := by
  decide

/-- What is written of single digits is written of a list of digits. -/
theorem exists_digits_of_forall_mem {α : Type} {write : Nat → α} {text : List α}
    (each : ∀ item ∈ text, ∃ digit < 10, item = write digit) :
    ∃ digits : List Nat, (∀ digit ∈ digits, digit < 10) ∧ text = digits.map write := by
  induction text with
  | nil => exact ⟨[], List.forall_mem_nil _, rfl⟩
  | cons item rest ih =>
    obtain ⟨⟨digit, small, rfl⟩, others⟩ := List.forall_mem_cons.mp each
    obtain ⟨digits, below, rfl⟩ := ih others
    exact ⟨digit :: digits, List.forall_mem_cons.mpr ⟨small, below⟩, rfl⟩

theorem all_digitChars {digits : List Nat} (each : ∀ digit ∈ digits, digit < 10) :
    (digits.map (digitChar 10)).all isDecimalDigit = true := by
  rw [List.all_eq_true]
  intro c isChar
  obtain ⟨digit, isDigit, rfl⟩ := List.mem_map.mp isChar
  exact isDecimalDigit_iff.mpr ⟨digit, each digit isDigit, rfl⟩

/-! ## Index numerals -/

theorem isIndexNumeral_toString (n : Nat) : isIndexNumeral (toString n).toList = true := by
  rw [toList_toString]
  obtain zero | ⟨first, rest, digits, leading, small, others⟩ :=
    digitsOf_cases (show 1 < 10 by decide) n
  · rw [zero]
    decide
  · have nonzero : digitChar 10 first ≠ '0' := mt (digitChar_eq_zero_iff first small).mp leading
    rw [digits, List.map_cons, isIndexNumeral]
    · simp [nonzero, all_digitChars others, isDecimalDigit_iff.mpr ⟨first, small, rfl⟩]
    · intro zero
      exact absurd zero nonzero

/-- Index numerals are the texts of the naturals. -/
theorem isIndexNumeral_iff {text : List Char} :
    isIndexNumeral text = true ↔ ∃ n : Nat, text = (toString n).toList := by
  constructor
  · intro isNumeral
    unfold isIndexNumeral at isNumeral
    split at isNumeral
    · contradiction
    · exact ⟨0, rfl⟩
    · next first rest _ =>
      rw [Bool.and_eq_true, Bool.and_eq_true, bne_iff_ne] at isNumeral
      obtain ⟨⟨nonzero, isFirst⟩, isRest⟩ := isNumeral
      obtain ⟨digit, small, rfl⟩ := isDecimalDigit_iff.mp isFirst
      obtain ⟨digits, each, rfl⟩ := exists_digits_of_forall_mem fun c isMember =>
        isDecimalDigit_iff.mp (List.all_eq_true.mp isRest c isMember)
      have leading : digit ≠ 0 := mt (digitChar_eq_zero_iff digit small).mpr nonzero
      refine ⟨ofDigits 10 (digit :: digits), ?_⟩
      rw [toList_toString, digitsOf_ofDigits_cons (by decide) leading
        (List.forall_mem_cons.mpr ⟨small, each⟩), List.map_cons]
  · rintro ⟨n, rfl⟩
    exact isIndexNumeral_toString n

/-! ## Words -/

/-- Digits are taken into a word until it overflows, as it does just if their value is too great. -/
theorem foldlM_appendDigit? {digits : List Nat} (each : ∀ digit ∈ digits, digit < 10) {word : Nat}
    (fits : word < 2 ^ 64) :
    (digits.map (digitChar 10)).foldlM appendDigit? word =
      if digits.foldl (fun value digit => value * 10 + digit) word < 2 ^ 64 then
        some (digits.foldl (fun value digit => value * 10 + digit) word)
      else none := by
  induction digits generalizing word with
  | nil => exact (if_pos fits).symm
  | cons digit digits ih =>
    obtain ⟨small, others⟩ := List.forall_mem_cons.mp each
    have step : appendDigit? word (digitChar 10 digit) =
        if word * 10 + digit < 2 ^ 64 then some (word * 10 + digit) else none := by
      rw [appendDigit?, digitValue?_digitChar digit small]
      rfl
    rw [List.map_cons, List.foldlM_cons, step, List.foldl_cons]
    by_cases room : word * 10 + digit < 2 ^ 64
    · rw [if_pos room]
      exact ih others room
    · -- What has overflowed would only grow.
      have grown := le_foldl_digits digits (word * 10 + digit)
      rw [if_neg room, if_neg (by omega)]
      rfl

/-- A word is read from digits that have its value, with any zeros in front and with a plus sign or
without. -/
theorem readWord?_digits {sign : List Char} (unsigned : sign = [] ∨ sign = ['+'])
    {digits : List Nat} (nonempty : digits ≠ []) (each : ∀ digit ∈ digits, digit < 10) :
    readWord? (sign ++ digits.map (digitChar 10)) =
      if ofDigits 10 digits < 2 ^ 64 then some (ofDigits 10 digits) else none := by
  have unmarked : ∀ digit < 10, digitChar 10 digit ≠ '+' := by decide
  have taken := foldlM_appendDigit? each (show 0 < 2 ^ 64 by decide)
  obtain rfl | rfl := unsigned
  · rw [List.nil_append, readWord?]
    · rw [if_neg (by simpa using nonempty)]
      exact taken
    · intro rest plus
      have marked : '+' ∈ digits.map (digitChar 10) := by
        rw [plus]
        exact List.mem_cons_self ..
      obtain ⟨digit, isDigit, isPlus⟩ := List.mem_map.mp marked
      exact unmarked digit (each digit isDigit) isPlus
  · rw [List.cons_append, List.nil_append, readWord?, if_neg (by simpa using nonempty)]
    exact taken

example : readWord? "+007".toList = some 7 ∧ readIndex? "+007".toList = none := by decide

/-! ## Indices -/

/-- The index of a numeral is the natural that it writes, unless that is too great. -/
theorem readIndex?_toString (n : Nat) :
    readIndex? (toString n).toList = if n ≤ greatestIndex then some n else none := by
  have greatest : greatestIndex = 2 ^ 32 - 2 := rfl
  have word := readWord?_digits (.inl rfl) (digitsOf_ne_nil (show 1 < 10 by decide) n)
    (digitsOf_lt (by decide) n)
  rw [List.nil_append, ← toList_toString, ofDigits_digitsOf (by decide)] at word
  rw [readIndex?, if_pos (isIndexNumeral_toString n), word]
  by_cases within : n ≤ greatestIndex
  · rw [if_pos (by omega), if_pos within, Option.filter_some, decide_eq_true within, if_pos rfl]
  · rw [if_neg within]
    split
    · rw [Option.filter_some, decide_eq_false within, if_neg Bool.false_ne_true]
    · rfl

theorem readIndex?_of_unindexed {text : List Char} (unindexed : isIndexNumeral text = false) :
    readIndex? text = none := by
  rw [readIndex?, unindexed, if_neg Bool.false_ne_true]

theorem readIndex?_eq_some_iff {text : List Char} {index : Nat} :
    readIndex? text = some index ↔ text = (toString index).toList ∧ index ≤ greatestIndex := by
  constructor
  · intro isIndex
    have isNumeral : isIndexNumeral text = true := by
      by_contra foreign
      rw [readIndex?_of_unindexed (Bool.eq_false_iff.mpr foreign)] at isIndex
      contradiction
    obtain ⟨n, rfl⟩ := isIndexNumeral_iff.mp isNumeral
    rw [readIndex?_toString] at isIndex
    split at isIndex
    · next within =>
      obtain rfl := Option.some.inj isIndex
      exact ⟨rfl, within⟩
    · contradiction
  · rintro ⟨rfl, within⟩
    rw [readIndex?_toString, if_pos within]

theorem length_toString_le {index : Nat} (within : index ≤ greatestIndex) :
    (toString index).length ≤ 10 := by
  rw [← String.length_toList, toList_toString, List.length_map]
  exact length_digitsOf_le (by decide) (by decide) (within.trans_lt (by decide))

/-! ## Bytes -/

/-- The byte of a decimal digit. -/
def digitByte (digit : Nat) : UInt8 := (digitChar 10 digit).toUInt8

def IsDigitByte (byte : UInt8) : Prop := '0'.toUInt8 ≤ byte ∧ byte ≤ '9'.toUInt8

/-- The byte of `0` alone, or the byte of another digit and then bytes of digits. -/
def IsIndexBytes (bytes : List UInt8) : Prop :=
  bytes = ['0'.toUInt8] ∨ ∃ first rest, bytes = first :: rest ∧
    '1'.toUInt8 ≤ first ∧ first ≤ '9'.toUInt8 ∧ ∀ byte ∈ rest, IsDigitByte byte

theorem isDigitByte_iff {byte : UInt8} :
    IsDigitByte byte ↔ ∃ digit < 10, byte = digitByte digit := by
  have own : ∀ digit < 10, digitByte digit = UInt8.ofNat ('0'.toNat + digit) := by decide
  constructor
  · rintro ⟨above, below⟩
    have least : '0'.toNat ≤ byte.toNat := UInt8.le_iff_toNat_le.mp above
    have greatest : byte.toNat ≤ '0'.toNat + 9 := UInt8.le_iff_toNat_le.mp below
    refine ⟨byte.toNat - '0'.toNat, by omega, ?_⟩
    rw [own _ (by omega), Nat.add_sub_cancel' least, UInt8.ofNat_toNat]
  · rintro ⟨digit, small, rfl⟩
    have each : ∀ digit < 10,
        '0'.toUInt8 ≤ digitByte digit ∧ digitByte digit ≤ '9'.toUInt8 := by decide
    exact each digit small

theorem one_le_digitByte_iff : ∀ digit < 10, '1'.toUInt8 ≤ digitByte digit ↔ digit ≠ 0 := by
  decide

theorem bytes_toString (n : Nat) :
    (toString n).toUTF8.data.toList = (digitsOf 10 n).map digitByte := by
  have single : ∀ digit < 10, String.utf8EncodeChar (digitChar 10 digit) = [digitByte digit] := by
    decide
  rw [String.toUTF8_eq_toByteArray, ← String.utf8Encode_toList, toList_toString, List.utf8Encode,
    List.toList_data_toByteArray, List.flatMap_map, List.map_eq_flatMap]
  exact List.flatMap_congr fun digit isDigit =>
    single digit (digitsOf_lt (by decide) n digit isDigit)

theorem bytes_injective {text other : String}
    (same : text.toUTF8.data.toList = other.toUTF8.data.toList) : text = other :=
  String.toByteArray_inj.mp (ByteArray.ext (Array.toList_inj.mp same))

/-- Index numerals by their bytes. Characters that are no digits have no bytes of digits. -/
theorem isIndexNumeral_iff_bytes (text : String) :
    isIndexNumeral text.toList = true ↔ IsIndexBytes text.toUTF8.data.toList := by
  rw [isIndexNumeral_iff]
  constructor
  · rintro ⟨n, isText⟩
    rw [String.toList_injective isText, bytes_toString]
    obtain zero | ⟨first, rest, digits, leading, small, others⟩ :=
      digitsOf_cases (show 1 < 10 by decide) n
    · rw [zero]
      exact .inl rfl
    · rw [digits, List.map_cons]
      exact .inr ⟨digitByte first, rest.map digitByte, rfl,
        (one_le_digitByte_iff first small).mpr leading,
        (isDigitByte_iff.mpr ⟨first, small, rfl⟩).2, List.forall_mem_map.mpr fun digit isDigit =>
          isDigitByte_iff.mpr ⟨digit, others digit isDigit, rfl⟩⟩
  · -- Texts of the same bytes are the same, so it is enough to find a natural of these bytes.
    rintro (zero | ⟨first, rest, isBytes, nonzero, isFirst, isRest⟩)
    · refine ⟨0, congrArg String.toList (bytes_injective ?_)⟩
      rw [zero, bytes_toString]
      rfl
    · have above : '0'.toUInt8 ≤ first := UInt8.le_trans (by decide) nonzero
      obtain ⟨digit, small, rfl⟩ := isDigitByte_iff.mp ⟨above, isFirst⟩
      obtain ⟨digits, each, rfl⟩ := exists_digits_of_forall_mem fun byte isMember =>
        isDigitByte_iff.mp (isRest byte isMember)
      have leading : digit ≠ 0 := (one_le_digitByte_iff digit small).mp nonzero
      refine ⟨ofDigits 10 (digit :: digits), congrArg String.toList (bytes_injective ?_)⟩
      rw [isBytes, bytes_toString, digitsOf_ofDigits_cons (by decide) leading
        (List.forall_mem_cons.mpr ⟨small, each⟩), List.map_cons]

/-! ## The texts of indices -/

/-- Index numerals are the texts of the naturals, of whatever size; as bytes they are `0` alone or
start with another digit. An index up to the greatest is read from its own text and from no other:
from none that is not an index numeral, such as one with a sign, a blank or a foreign digit, and
from none of more than ten characters, so from none that overflows a word. -/
theorem index_texts_are_canonical (text : String) :
    (isIndexNumeral text.toList = true ↔ ∃ n : ℕ, text = toString n) ∧
    (isIndexNumeral text.toList = true ↔ IsIndexBytes text.toUTF8.data.toList) ∧
    (∀ index, readIndex? text.toList = some index ↔
      text = toString index ∧ index ≤ 2 ^ 32 - 2) ∧
    (∀ index (other : String), readIndex? text.toList = some index →
      readIndex? other.toList = some index → text = other) ∧
    (isIndexNumeral text.toList = false → readIndex? text.toList = none) ∧
    (∀ c ∈ text.toList, c ∉ "0123456789".toList →
      isIndexNumeral text.toList = false ∧ readIndex? text.toList = none) ∧
    (10 < text.length → readIndex? text.toList = none) := by
  have numeral : isIndexNumeral text.toList = true ↔ ∃ n : ℕ, text = toString n := by
    rw [isIndexNumeral_iff]
    exact exists_congr fun n => String.toList_inj
  have read (text : String) (index : ℕ) : readIndex? text.toList = some index ↔
      text = toString index ∧ index ≤ greatestIndex := by
    rw [readIndex?_eq_some_iff, String.toList_inj]
  refine ⟨numeral, isIndexNumeral_iff_bytes text, read text, ?_, readIndex?_of_unindexed, ?_, ?_⟩
  · intro index other isIndex sameIndex
    rw [((read text index).mp isIndex).1, ((read other index).mp sameIndex).1]
  · intro c isMember foreign
    have unindexed : isIndexNumeral text.toList = false := by
      rw [Bool.eq_false_iff]
      intro isNumeral
      obtain ⟨n, rfl⟩ := numeral.mp isNumeral
      exact foreign (toString_subset n isMember)
    exact ⟨unindexed, readIndex?_of_unindexed unindexed⟩
  · intro long
    rw [Option.eq_none_iff_forall_ne_some]
    intro index isIndex
    obtain ⟨rfl, within⟩ := (read text index).mp isIndex
    exact absurd (length_toString_le within) (Nat.not_le.mpr long)

/-- The numeral of `2 ^ 64 + 1` gives no index, and so not 1, which a word would wrap around to. The
text of 1 gives it, but not after a plus sign. -/
theorem index_texts_are_canonical_overflowing :
    isIndexNumeral "18446744073709551617".toList = true ∧
      10 < "18446744073709551617".length ∧ readIndex? "18446744073709551617".toList = none ∧
      '+' ∈ "+1".toList ∧ '+' ∉ "0123456789".toList ∧
      isIndexNumeral "+1".toList = false ∧ readIndex? "+1".toList = none ∧
      readIndex? "1".toList = some 1 ∧ readIndex? (toString 1).toList = some 1 ∧
      "1" = toString 1 := by
  obtain ⟨overflowing, -, -, -, -, -, long⟩ := index_texts_are_canonical "18446744073709551617"
  obtain ⟨-, -, -, -, unread, foreign, -⟩ := index_texts_are_canonical "+1"
  obtain ⟨-, -, read, unique, -, -, -⟩ := index_texts_are_canonical "1"
  have plus : '+' ∈ "+1".toList := by decide
  have noDigit : '+' ∉ "0123456789".toList := by decide
  have unindexed := (foreign '+' plus noDigit).1
  have one : readIndex? "1".toList = some 1 := (read 1).mpr ⟨rfl, by decide⟩
  have same : readIndex? (toString 1).toList = some 1 := one
  exact ⟨overflowing.mpr ⟨2 ^ 64 + 1, by decide +kernel⟩, by decide, long (by decide), plus,
    noDigit, unindexed, unread unindexed, one, same, unique 1 (toString 1) one same⟩

end ScriptCore
