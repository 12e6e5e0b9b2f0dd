import ScriptCore.Proofs.Number.Digits

/-! # Numerals read back

A numeral whose digits are decimal, with one before the point, reads as itself, and the parser in
use takes in an exponent below `2^16` without loss. The text of a numeral has no blank and no letter
but the `e` of the exponent, so it gets past the trimming, the names, the prefixes and the filter.
-/

namespace ScriptCore

namespace Numeral

/-- A numeral that the parser in use takes in without loss. -/
structure Legible (numeral : Numeral) : Prop where
  whole : ∀ digit ∈ numeral.whole, digit < 10
  fraction : ∀ digit ∈ numeral.fraction, digit < 10
  whole_ne_nil : numeral.whole ≠ []
  exponent : ∀ exponent ∈ numeral.exponent, exponent.natAbs < 2 ^ 16

/-- A legible numeral in which no zero comes before other digits before the point. -/
structure IsStrict (numeral : Numeral) : Prop extends Legible numeral where
  leading : numeral.whole.head? = some 0 → numeral.whole = [0]

theorem cappedSize_of_lt {size : Nat} (small : size < 10 * 2 ^ 16) : cappedSize size = size := by
  rw [cappedSize, if_pos small]

theorem Legible.capped_eq {numeral : Numeral} (legible : numeral.Legible) :
    numeral.capped = numeral := by
  obtain ⟨negative, whole, fraction, exponent⟩ := numeral
  cases exponent with
  | none => rfl
  | some exponent =>
    have small := legible.exponent exponent rfl
    rw [capped, Option.map_some, cappedSize_of_lt (by omega)]
    congr 2
    omega

theorem takeSign_of_unsigned {text : List Char} (minus : '-' ∉ text.head?)
    (plus : '+' ∉ text.head?) : takeSign text = (false, text) := by
  unfold takeSign
  split
  · simp at minus
  · simp at plus
  · rfl

theorem unsigned_digits {digits : List Nat} (each : ∀ digit ∈ digits, digit < 10)
    (nonempty : digits ≠ []) (rest : List Char) :
    ∀ c ∈ (digits.map (digitChar 10) ++ rest).head?, c ≠ '-' ∧ c ≠ '+' := by
  have unsigned : ∀ digit < 10, digitChar 10 digit ≠ '-' ∧ digitChar 10 digit ≠ '+' := by decide
  cases digits with
  | nil => exact absurd rfl nonempty
  | cons digit digits =>
    intro c isFirst
    obtain rfl : digitChar 10 digit = c := Option.some.inj isFirst
    exact unsigned digit (each digit (List.mem_cons_self ..))

theorem takeSign_digits {digits : List Nat} (each : ∀ digit ∈ digits, digit < 10)
    (nonempty : digits ≠ []) (rest : List Char) :
    takeSign (digits.map (digitChar 10) ++ rest) =
      (false, digits.map (digitChar 10) ++ rest) := by
  have unsigned := unsigned_digits each nonempty rest
  exact takeSign_of_unsigned (fun isFirst => (unsigned _ isFirst).1 rfl)
    fun isFirst => (unsigned _ isFirst).2 rfl

theorem takeSign_renderExponent (plus : Bool) (exponent : Int) (rest : List Char) :
    takeSign (renderExponent plus exponent ++ rest) =
      (decide (exponent < 0), (digitsOf 10 exponent.natAbs).map (digitChar 10) ++ rest) := by
  have unsigned := takeSign_digits (digitsOf_lt (by decide) exponent.natAbs)
    (digitsOf_ne_nil (by decide) exponent.natAbs) rest
  unfold renderExponent
  by_cases negative : exponent < 0
  · simp [negative, takeSign]
  · cases plus
    · simpa [negative] using unsigned
    · simp [negative, takeSign]

/-- The sign and the digits of an exponent are taken apart again. -/
theorem exists_taken_renderExponent (plus : Bool) (exponent : Int) :
    ∃ rest digit digits, takeSign (renderExponent plus exponent) = (decide (exponent < 0), rest) ∧
      takeDigits rest = (digit :: digits, []) ∧ ofDigits 10 (digit :: digits) = exponent.natAbs := by
  have value : ofDigits 10 (digitsOf 10 exponent.natAbs) = exponent.natAbs :=
    ofDigits_digitsOf (by decide) exponent.natAbs
  have taken : takeDigits ((digitsOf 10 exponent.natAbs).map (digitChar 10) ++ []) = (_, []) :=
    takeDigits_append (digitsOf_lt (by decide) exponent.natAbs) (by simp)
  obtain ⟨digit, digits, isCons⟩ :=
    List.exists_cons_of_ne_nil (digitsOf_ne_nil (show 1 < 10 by decide) exponent.natAbs)
  have signed := takeSign_renderExponent plus exponent []
  rw [List.append_nil] at signed
  rw [isCons] at value taken signed
  exact ⟨_, digit, digits, signed, taken, value⟩

theorem apply_sign_natAbs (exponent : Int) :
    (if decide (exponent < 0) then -(exponent.natAbs : Int) else exponent.natAbs) = exponent := by
  simp only [decide_eq_true_eq]
  omega

theorem readExponent?_renderExponent (plus : Bool) (exponent : Int) :
    readExponent? ('e' :: renderExponent plus exponent) = some (some exponent) := by
  obtain ⟨rest, digit, digits, signed, taken, value⟩ := exists_taken_renderExponent plus exponent
  unfold readExponent?
  simp only [signed, taken, ofLongDigits_eq, value, apply_sign_natAbs]
  rfl

def fractionChars (fraction : List Nat) : List Char :=
  if fraction.isEmpty then [] else '.' :: fraction.map (digitChar 10)

def exponentChars (plus : Bool) : Option Int → List Char
  | none => []
  | some exponent => 'e' :: renderExponent plus exponent

theorem chars_eq (numeral : Numeral) (plus : Bool) :
    numeral.chars 10 plus = (if numeral.negative then ['-'] else []) ++
      (numeral.whole.map (digitChar 10) ++
        (fractionChars numeral.fraction ++ exponentChars plus numeral.exponent)) := by
  unfold chars exponentChars
  cases numeral.exponent <;> simp [fractionChars]

theorem readExponent?_exponentChars (plus : Bool) (exponent : Option Int) :
    readExponent? (exponentChars plus exponent) = some exponent := by
  cases exponent with
  | none => rfl
  | some exponent => exact readExponent?_renderExponent plus exponent

/-- An exponent ends the digits before it, and is no fraction. -/
theorem exponentChars_stop (plus : Bool) (exponent : Option Int) :
    ∀ c ∈ (exponentChars plus exponent).head?, digitValue? 10 c = none ∧ c ≠ '.' := by
  cases exponent with
  | none => simp [exponentChars]
  | some size =>
    rintro c isFirst
    obtain rfl : 'e' = c := Option.some.inj isFirst
    decide

theorem read?_chars {numeral : Numeral} (legible : numeral.Legible) (plus : Bool) :
    read? (numeral.chars 10 plus) = some numeral := by
  have stop := exponentChars_stop plus numeral.exponent
  have ended := readExponent?_exponentChars plus numeral.exponent
  have sign : takeSign (numeral.chars 10 plus) =
      (numeral.negative, numeral.whole.map (digitChar 10) ++
        (fractionChars numeral.fraction ++ exponentChars plus numeral.exponent)) := by
    rw [chars_eq]
    cases numeral.negative with
    | true => rfl
    | false => exact takeSign_digits legible.whole legible.whole_ne_nil _
  have nonempty : numeral.whole.isEmpty = false := by
    simp [legible.whole_ne_nil]
  unfold read?
  generalize exponentChars plus numeral.exponent = ending at *
  by_cases pointless : numeral.fraction = []
  · have whole : takeDigits (numeral.whole.map (digitChar 10) ++ ending) =
        (numeral.whole, ending) :=
      takeDigits_append legible.whole fun c isFirst => (stop c isFirst).1
    simp only [sign, pointless, fractionChars, List.isEmpty_nil, if_true, List.nil_append, whole]
    split
    · exact absurd rfl (stop '.' rfl).2
    · simp [nonempty, ended, ← pointless]
  · have fraction : takeDigits (numeral.fraction.map (digitChar 10) ++ ending) =
        (numeral.fraction, ending) :=
      takeDigits_append legible.fraction fun c isFirst => (stop c isFirst).1
    have whole : takeDigits (numeral.whole.map (digitChar 10) ++
          '.' :: (numeral.fraction.map (digitChar 10) ++ ending)) = (numeral.whole, _) :=
      takeDigits_append legible.whole (by simp; decide)
    have pointed : fractionChars numeral.fraction = '.' :: numeral.fraction.map (digitChar 10) := by
      simp [fractionChars, pointless]
    simp only [sign, pointed, List.cons_append, whole, fraction]
    simp [nonempty, ended]

/-- The characters that decimal numerals are written with. -/
def alphabet : List Char :=
  ['0', '1', '2', '3', '4', '5', '6', '7', '8', '9', '+', '-', '.', 'e']

theorem digitChar_mem_alphabet (digit : Nat) : digitChar 10 digit ∈ alphabet := by
  by_cases decimal : digit < 10
  · have each : ∀ digit < 10, digitChar 10 digit ∈ alphabet := by decide
    exact each digit decimal
  · rw [digitChar, if_pos (by omega)]
    decide

theorem digitChars_subset (digits : List Nat) : digits.map (digitChar 10) ⊆ alphabet := by
  intro c isDigit
  obtain ⟨digit, -, rfl⟩ := List.mem_map.mp isDigit
  exact digitChar_mem_alphabet digit

theorem exponentChars_subset (plus : Bool) (exponent : Option Int) :
    exponentChars plus exponent ⊆ alphabet := by
  cases exponent with
  | none => exact List.nil_subset _
  | some size =>
    refine List.cons_subset.mpr ⟨by decide, List.append_subset.mpr ⟨?_, digitChars_subset _⟩⟩
    split
    · decide
    · split <;> decide

theorem chars_subset (numeral : Numeral) (plus : Bool) : numeral.chars 10 plus ⊆ alphabet := by
  have sign : (if numeral.negative then ['-'] else []) ⊆ alphabet := by
    cases numeral.negative <;> decide
  have fraction : fractionChars numeral.fraction ⊆ alphabet := by
    unfold fractionChars
    split
    · exact List.nil_subset _
    · exact List.cons_subset.mpr ⟨by decide, digitChars_subset _⟩
  rw [chars_eq]
  simp only [List.append_subset]
  exact ⟨sign, digitChars_subset _, fraction, exponentChars_subset plus _⟩

end Numeral

/-- A text in the alphabet of numerals has no blanks. The letter of an exponent may be a capital. -/
theorem trimBlanks_of_subset {text : List Char} (plain : text ⊆ 'E' :: Numeral.alphabet) :
    trimBlanks text = text := by
  have visible : ('E' :: Numeral.alphabet).all (fun c => !isBlank c) = true := by decide
  have keeps : ∀ text : List Char, text ⊆ 'E' :: Numeral.alphabet →
      text.dropWhile isBlank = text := by
    intro text plain
    cases text with
    | nil => rfl
    | cons c rest =>
      have first := List.all_eq_true.mp visible c (plain (List.mem_cons_self ..))
      simp_all
  rw [trimBlanks, keeps text plain, keeps _ (List.reverse_subset.mpr plain), List.reverse_reverse]

theorem takeSign_subset (text : List Char) : (takeSign text).2 ⊆ text := by
  unfold takeSign
  split
  · exact List.subset_cons_self ..
  · exact List.subset_cons_self ..
  · exact List.Subset.refl _

namespace Double

theorem isNumeralByte_of_large {code : Nat} (large : 128 ≤ code) (isByte : code < 256) :
    isNumeralByte (UInt8.ofNat code) = false := by
  have value : (UInt8.ofNat code).toNat = code := by
    rw [UInt8.toNat_ofNat', Nat.mod_eq_of_lt isByte]
  have codes : '9'.toNat = 57 ∧ '.'.toNat = 46 ∧ 'e'.toNat = 101 ∧ 'E'.toNat = 69 ∧
      '+'.toNat = 43 ∧ '-'.toNat = 45 := by decide
  obtain ⟨nine, point, small, capital, plus, minus⟩ := codes
  have different : code ≠ 46 ∧ code ≠ 101 ∧ code ≠ 69 ∧ code ≠ 43 ∧ code ≠ 45 := by omega
  simp only [isNumeralByte, value, nine, point, small, capital, plus, minus]
  simp [different, show ¬code ≤ 57 by omega]

/-- A character beyond ASCII begins with a byte that the filter refuses. -/
theorem utf8EncodeChar_all_isNumeralByte (c : Char) :
    (String.utf8EncodeChar c).all isNumeralByte = true ↔ c ∈ 'E' :: Numeral.alphabet := by
  have ascii : ∀ code < 128, isNumeralByte (UInt8.ofNat code) = true ↔
      Char.ofNat code ∈ 'E' :: Numeral.alphabet := by
    decide +kernel
  have small : ('E' :: Numeral.alphabet).all (fun c => c.toNat < 128) = true := by decide
  have first {code : Nat} {rest : List UInt8} (large : 128 ≤ code) (isByte : code < 256) :
      ¬(UInt8.ofNat code :: rest).all isNumeralByte = true := by
    rw [List.all_cons, isNumeralByte_of_large large isByte, Bool.false_and]
    exact Bool.false_ne_true
  have code : c.val.toNat = c.toNat := rfl
  simp only [String.utf8EncodeChar, code]
  by_cases isAscii : c.toNat ≤ 127
  · rw [if_pos isAscii, List.all_cons, List.all_nil, Bool.and_true, ascii _ (by omega),
      Char.ofNat_toNat]
  · rw [if_neg isAscii]
    have large (isPart : c ∈ 'E' :: Numeral.alphabet) : False :=
      isAscii (Nat.le_of_lt_succ (of_decide_eq_true (List.all_eq_true.mp small c isPart)))
    refine iff_of_false ?_ large
    split
    · exact first (by omega) (by omega)
    · split
      · exact first (by omega) (by omega)
      · exact first (by omega) (by omega)

/-- The filter lets through what is written in the alphabet of numerals, with a capital or a small
letter before the exponent. -/
theorem hasNumeralBytes_iff {text : List Char} :
    hasNumeralBytes text = true ↔ text ⊆ 'E' :: Numeral.alphabet := by
  rw [hasNumeralBytes, List.all_flatMap, List.all_eq_true]
  exact forall₂_congr fun c _ => utf8EncodeChar_all_isNumeralByte c

/-- No prefix is written in the alphabet of numerals. -/
theorem takePrefix?_of_subset {text : List Char} (plain : text ⊆ 'E' :: Numeral.alphabet) :
    takePrefix? text = none := by
  have marked : ∀ mark ∈ prefixes, ¬mark.1.toList ⊆ 'E' :: Numeral.alphabet := by decide
  rw [takePrefix?, List.findSome?_eq_none_iff]
  intro mark isMark
  rw [Option.map_eq_none_iff]
  refine Option.eq_none_iff_forall_ne_some.mpr fun digits found => marked mark isMark ?_
  rw [List.isPrefixOf?_eq_some_iff_append_eq] at found
  exact fun c isPart => plain (found ▸ List.mem_append_left digits isPart)

/-- A text in the alphabet of numerals is left to the parser. -/
theorem readTrimmedBy_of_subset {text : List Char} (plain : text ⊆ 'E' :: Numeral.alphabet)
    (nonempty : text ≠ []) (parse : Parser) : readTrimmedBy parse text = (parse text).getD nan := by
  have foreign : ¬"Infinity".toList ⊆ 'E' :: Numeral.alphabet ∧
      ¬"+Infinity".toList ⊆ 'E' :: Numeral.alphabet ∧
      ¬"-Infinity".toList ⊆ 'E' :: Numeral.alphabet := by decide
  rw [readTrimmedBy, if_neg (by simpa using nonempty), if_neg, if_neg, takePrefix?_of_subset plain]
  · exact if_pos (hasNumeralBytes_iff.mpr plain)
  · rintro rfl
    exact foreign.2.2 plain
  · rintro (rfl | rfl)
    · exact foreign.1 plain
    · exact foreign.2.1 plain

/-- A name has a letter that no numeral has. -/
theorem ofName?_of_subset {name : List Char} (plain : name ⊆ 'E' :: Numeral.alphabet) :
    ofName? name = none := by
  have letters : ('E' :: Numeral.alphabet).all (fun c => c.toLower ≠ 'n') = true := by decide
  have absent : 'n' ∉ name.map Char.toLower := by
    intro isPart
    obtain ⟨c, isLetter, isSmall⟩ := List.mem_map.mp isPart
    exact of_decide_eq_true (List.all_eq_true.mp letters c (plain isLetter)) isSmall
  rw [ofName?, if_neg, if_neg]
  · intro isName
    exact absent (isName ▸ by decide)
  · rintro (isName | isName) <;> exact absent (isName ▸ by decide)

theorem parseBy?_of_subset {text : List Char} (plain : text ⊆ 'E' :: Numeral.alphabet)
    (ofNumeral : Numeral → Double) :
    parseBy? ofNumeral text = (Numeral.read? text).map ofNumeral := by
  have unsigned : (takeSign text).2 ⊆ 'E' :: Numeral.alphabet :=
    fun c isPart => plain (takeSign_subset text isPart)
  simp only [parseBy?, ofName?_of_subset unsigned]

/-- The text of a legible numeral reads as the number nearest to its value. -/
theorem ofText_render {numeral : Numeral} (legible : numeral.Legible) (plus : Bool) :
    ofText (numeral.render 10 plus) =
      ofDecimal numeral.negative (numeral.whole ++ numeral.fraction) numeral.scale := by
  have plain := List.subset_cons_of_subset 'E' (numeral.chars_subset plus)
  have nonempty : numeral.chars 10 plus ≠ [] := by
    rw [Numeral.chars_eq]
    simp [legible.whole_ne_nil]
  rw [ofText, ofTextBy, Numeral.render, String.toList_ofList, trimBlanks_of_subset plain,
    readTrimmedBy_of_subset plain nonempty, parseCapped?, parseBy?_of_subset plain,
    Numeral.read?_chars legible, Option.map_some, Option.getD_some, legible.capped_eq,
    Numeral.toDouble]

end Double

end ScriptCore
