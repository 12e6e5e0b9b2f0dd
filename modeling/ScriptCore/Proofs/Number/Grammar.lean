import ScriptCore.Proofs.Number.RoundTrip

/-! # The grammar of number texts

What a number may be written as, apart from the reader: a signed `Infinity`, an integer after a
prefix, or a decimal numeral. A form carries its own well-formedness, and its characters are the only
text that it has. The reader of decimal numerals accepts the texts of decimal forms and no others,
and keeps their values.
-/

namespace ScriptCore

/-! ## Forms -/

inductive SignMark
  | absent
  | plus
  | minus
deriving DecidableEq

namespace SignMark

def chars : SignMark → List Char
  | absent => []
  | plus => ['+']
  | minus => ['-']

def isMinus : SignMark → Bool
  | minus => true
  | absent | plus => false

/-- An integer of the given size. -/
def apply (sign : SignMark) (size : ℕ) : ℤ := if sign.isMinus then -size else size

end SignMark

/-- The characters of decimal digits. -/
def digitChars (digits : List (Fin 10)) : List Char := (digits.map Fin.val).map (digitChar 10)

/-- The natural that decimal digits denote. -/
def digitsValue (digits : List (Fin 10)) : ℕ := ofDigits 10 (digits.map Fin.val)

/-- The letter `e`, an optional sign and at least one digit. -/
structure ExponentForm where
  capital : Bool
  sign : SignMark
  digits : List (Fin 10)
  digits_ne_nil : digits ≠ []

namespace ExponentForm

def chars (form : ExponentForm) : List Char :=
  (if form.capital then 'E' else 'e') :: (form.sign.chars ++ digitChars form.digits)

def value (form : ExponentForm) : ℤ := form.sign.apply (digitsValue form.digits)

end ExponentForm

/-- The point and the digits after it, if there is one. -/
def pointChars : Option (List (Fin 10)) → List Char
  | none => []
  | some digits => '.' :: digitChars digits

/-- An optional sign, digits with an optional point, at least one of them before or after it, and an
optional exponent. -/
structure DecimalForm where
  sign : SignMark
  whole : List (Fin 10)
  /-- The digits after the point, if there is one. -/
  fraction : Option (List (Fin 10))
  exponent : Option ExponentForm
  digits_ne_nil : whole ≠ [] ∨ fraction.getD [] ≠ []

namespace DecimalForm

def fractionChars (form : DecimalForm) : List Char := pointChars form.fraction

def exponentChars (form : DecimalForm) : List Char := form.exponent.elim [] ExponentForm.chars

def chars (form : DecimalForm) : List Char :=
  form.sign.chars ++ (digitChars form.whole ++ (form.fractionChars ++ form.exponentChars))

/-- All digits, without the point. -/
def digits (form : DecimalForm) : List (Fin 10) := form.whole ++ form.fraction.getD []

/-- The power of ten that the digits, as an integer, are multiplied by. -/
def scale (form : DecimalForm) : ℤ :=
  form.exponent.elim 0 ExponentForm.value - (form.fraction.getD []).length

/-- The rational that the form denotes, up to its sign. -/
def value (form : DecimalForm) : ℚ := digitsValue form.digits * 10 ^ form.scale

/-- The numeral that is read. -/
def numeral (form : DecimalForm) : Numeral where
  negative := form.sign.isMinus
  whole := form.whole.map Fin.val
  fraction := (form.fraction.getD []).map Fin.val
  exponent := form.exponent.map ExponentForm.value

end DecimalForm

/-- The radix of a prefixed integer. -/
inductive RadixMark
  | hexadecimal
  | octal
  | binary
deriving DecidableEq

namespace RadixMark

def radix : RadixMark → ℕ
  | hexadecimal => 16
  | octal => 8
  | binary => 2

/-- The letter after the zero of a prefix, small or capital. -/
def letter : RadixMark → Bool → Char
  | hexadecimal, capital => if capital then 'X' else 'x'
  | octal, capital => if capital then 'O' else 'o'
  | binary, capital => if capital then 'B' else 'b'

/-- The digits of the radix. -/
def alphabet : RadixMark → List Char
  | hexadecimal => "0123456789abcdefABCDEF".toList
  | octal => "01234567".toList
  | binary => "01".toList

end RadixMark

/-- A number text without blanks around it. -/
inductive NumberForm
  | infinity (sign : SignMark)
  | prefixed (mark : RadixMark) (capital : Bool) (digits : List Char) (digits_ne_nil : digits ≠ [])
      (digits_subset : digits ⊆ mark.alphabet)
  | decimal (form : DecimalForm)

def NumberForm.chars : NumberForm → List Char
  | infinity sign => sign.chars ++ "Infinity".toList
  | prefixed mark capital digits _ _ => '0' :: mark.letter capital :: digits
  | decimal form => form.chars

/-! ## Reading signs and digits -/

theorem takeSign_eq (text : List Char) :
    ∃ sign : SignMark, text = sign.chars ++ (takeSign text).2 ∧ (takeSign text).1 = sign.isMinus := by
  unfold takeSign
  split
  · exact ⟨.minus, rfl, rfl⟩
  · exact ⟨.plus, rfl, rfl⟩
  · exact ⟨.absent, rfl, rfl⟩

theorem takeSign_chars (sign : SignMark) (rest : List Char) (minus : '-' ∉ rest.head?)
    (plus : '+' ∉ rest.head?) : takeSign (sign.chars ++ rest) = (sign.isMinus, rest) := by
  cases sign with
  | absent => exact Numeral.takeSign_of_unsigned minus plus
  | plus | minus => rfl

theorem digitValue?_eq_some {c : Char} {digit : ℕ} (isDigit : digitValue? 10 c = some digit) :
    digit < 10 ∧ digitChar 10 digit = c := by
  have zero : '0'.toNat = 48 := rfl
  have nine : '9'.toNat = 57 := rfl
  unfold digitValue? at isDigit
  simp only [zero, nine, Bool.and_eq_true, decide_eq_true_iff] at isDigit
  split at isDigit
  · next decimal =>
    rw [if_pos (by omega)] at isDigit
    obtain rfl := Option.some.inj isDigit
    have code : 48 + (c.toNat - 48) = c.toNat := by omega
    refine ⟨by omega, ?_⟩
    rw [digitChar, if_neg (by omega), if_pos (by omega), zero, code, Char.ofNat_toNat]
  · -- The value of a letter is ten or more.
    rw [if_neg] at isDigit
    · cases isDigit
    · split_ifs <;> omega

theorem takeDigits_eq (text : List Char) :
    ∃ digits : List (Fin 10), (takeDigits text).1 = digits.map Fin.val ∧
      text = digitChars digits ++ (takeDigits text).2 ∧
      ∀ c ∈ (takeDigits text).2.head?, digitValue? 10 c = none := by
  induction text with
  | nil => exact ⟨[], rfl, rfl, by simp [takeDigits]⟩
  | cons c rest ih =>
    rw [takeDigits]
    cases value : digitValue? 10 c with
    | none => exact ⟨[], rfl, rfl, by simpa using value⟩
    | some digit =>
      obtain ⟨small, isChar⟩ := digitValue?_eq_some value
      obtain ⟨digits, values, split, stop⟩ := ih
      refine ⟨⟨digit, small⟩ :: digits, ?_, ?_, stop⟩
      · rw [List.map_cons, ← values]
      · dsimp only
        rw [digitChars, List.map_cons, List.map_cons, List.cons_append, isChar, ← digitChars, ← split]

theorem val_lt (digits : List (Fin 10)) : ∀ digit ∈ digits.map Fin.val, digit < 10 := by
  intro digit isDigit
  obtain ⟨digit, -, rfl⟩ := List.mem_map.mp isDigit
  exact digit.isLt

theorem takeDigits_chars (digits : List (Fin 10)) (rest : List Char)
    (stop : ∀ c ∈ rest.head?, digitValue? 10 c = none) :
    takeDigits (digitChars digits ++ rest) = (digits.map Fin.val, rest) :=
  takeDigits_append (val_lt digits) stop

/-! ## Reading decimal numerals -/

/-- The digits after a point, if there is one, and what follows them. -/
def takePoint : List Char → List ℕ × List Char
  | '.' :: rest => takeDigits rest
  | rest => ([], rest)

theorem takePoint_eq (text : List Char) :
    ∃ fraction : Option (List (Fin 10)), (takePoint text).1 = (fraction.getD []).map Fin.val ∧
      text = pointChars fraction ++ (takePoint text).2 := by
  unfold takePoint
  split
  · next rest =>
    obtain ⟨digits, values, split, -⟩ := takeDigits_eq rest
    exact ⟨some digits, values, congrArg _ split⟩
  · exact ⟨none, rfl, rfl⟩

theorem takePoint_chars (fraction : Option (List (Fin 10))) (rest : List Char)
    (stop : ∀ c ∈ rest.head?, digitValue? 10 c = none ∧ c ≠ '.') :
    takePoint (pointChars fraction ++ rest) = ((fraction.getD []).map Fin.val, rest) := by
  cases fraction with
  | none =>
    rw [pointChars, List.nil_append]
    unfold takePoint
    split
    · exact absurd rfl (stop '.' rfl).2
    · rfl
  | some digits => exact takeDigits_chars digits rest fun c isFirst => (stop c isFirst).1

/-- The reader takes a sign, digits, a point with digits and an exponent, in this order. -/
theorem Numeral.read?_eq (text : List Char) :
    read? text =
      let signed := takeSign text
      let whole := takeDigits signed.2
      let fraction := takePoint whole.2
      if whole.1.isEmpty && fraction.1.isEmpty then none
      else (readExponent? fraction.2).map fun exponent =>
        ⟨signed.1, whole.1, fraction.1, exponent⟩ := by
  rfl

theorem digitChars_head? {digits : List (Fin 10)} (nonempty : digits ≠ []) (rest : List Char) :
    ∀ c ∈ (digitChars digits ++ rest).head?, c ≠ '-' ∧ c ≠ '+' :=
  Numeral.unsigned_digits (val_lt digits) (mt List.map_eq_nil_iff.mp nonempty) rest

namespace ExponentForm

/-- An exponent ends the digits before it. -/
theorem chars_stop (form : ExponentForm) :
    ∀ c ∈ form.chars.head?, digitValue? 10 c = none ∧ c ≠ '.' ∧ c ≠ '-' ∧ c ≠ '+' := by
  rintro c isFirst
  obtain rfl : (if form.capital then 'E' else 'e') = c := Option.some.inj isFirst
  cases form.capital <;> decide

theorem readExponent?_chars (form : ExponentForm) :
    Numeral.readExponent? form.chars = some (some form.value) := by
  obtain ⟨capital, sign, digits, nonempty⟩ := form
  have unsigned := digitChars_head? nonempty []
  have signed := takeSign_chars sign (digitChars digits ++ [])
    (fun isFirst => (unsigned _ isFirst).1 rfl) (fun isFirst => (unsigned _ isFirst).2 rfl)
  have digitsTaken := takeDigits_chars digits [] (by simp)
  rw [List.append_nil] at signed digitsTaken
  have letter : ((if capital then 'E' else 'e') == 'e' || (if capital then 'E' else 'e') == 'E') =
      true := by
    cases capital <;> decide
  rw [chars, Numeral.readExponent?]
  simp only [letter, if_true, signed, digitsTaken]
  cases digits with
  | nil => exact absurd rfl nonempty
  | cons digit digits =>
    simp only [List.map_cons, ofLongDigits_eq]
    rfl

/-- What ends a numeral is nothing or the text of an exponent. -/
theorem eq_of_readExponent? {text : List Char} {exponent : Option ℤ}
    (reads : Numeral.readExponent? text = some exponent) :
    ∃ form : Option ExponentForm, text = form.elim [] chars ∧ exponent = form.map value := by
  cases text with
  | nil => exact ⟨none, rfl, (Option.some.inj reads).symm⟩
  | cons c rest =>
    obtain ⟨sign, signSplit, isMinus⟩ := takeSign_eq rest
    obtain ⟨digits, values, digitSplit, -⟩ := takeDigits_eq (takeSign rest).2
    rw [Numeral.readExponent?] at reads
    split at reads
    · next isLetter =>
      have letter : (if c == 'E' then 'E' else 'e') = c := by
        rw [Bool.or_eq_true, beq_iff_eq, beq_iff_eq] at isLetter
        rcases isLetter with rfl | rfl <;> rfl
      dsimp only at reads
      split at reads
      · next first others taken =>
        rw [taken] at values digitSplit
        have nonempty : digits ≠ [] := by
          rintro rfl
          cases values
        refine ⟨some ⟨c == 'E', sign, digits, nonempty⟩, ?_, ?_⟩
        · rw [Option.elim_some, chars, letter, signSplit, digitSplit, List.append_nil]
        · rw [← Option.some.inj reads, Option.map_some, ExponentForm.value, SignMark.apply, ← isMinus,
            digitsValue, ← values, ofLongDigits_eq]
      · cases reads
    · cases reads

end ExponentForm

namespace DecimalForm

theorem exponentChars_stop (form : DecimalForm) :
    ∀ c ∈ form.exponentChars.head?, digitValue? 10 c = none ∧ c ≠ '.' ∧ c ≠ '-' ∧ c ≠ '+' := by
  rw [exponentChars]
  cases form.exponent with
  | none => simp
  | some exponent => exact exponent.chars_stop

theorem readExponent?_exponentChars (form : DecimalForm) :
    Numeral.readExponent? form.exponentChars = some (form.exponent.map ExponentForm.value) := by
  rw [exponentChars]
  cases form.exponent with
  | none => rfl
  | some exponent => exact exponent.readExponent?_chars

/-- The digits before the point end there, or at the exponent. -/
theorem afterWhole_stop (form : DecimalForm) :
    ∀ c ∈ (form.fractionChars ++ form.exponentChars).head?,
      digitValue? 10 c = none ∧ c ≠ '-' ∧ c ≠ '+' := by
  rw [fractionChars]
  cases form.fraction with
  | none =>
    intro c isFirst
    obtain ⟨value, -, unsigned⟩ := form.exponentChars_stop c isFirst
    exact ⟨value, unsigned⟩
  | some digits =>
    rintro c isFirst
    obtain rfl : '.' = c := Option.some.inj isFirst
    decide

theorem unsigned_head? (form : DecimalForm) :
    ∀ c ∈ (digitChars form.whole ++ (form.fractionChars ++ form.exponentChars)).head?,
      c ≠ '-' ∧ c ≠ '+' := by
  by_cases empty : form.whole = []
  · rw [empty]
    exact fun c isFirst => (form.afterWhole_stop c isFirst).2
  · exact digitChars_head? empty _

theorem read?_chars (form : DecimalForm) : Numeral.read? form.chars = some form.numeral := by
  have signed := takeSign_chars form.sign
    (digitChars form.whole ++ (form.fractionChars ++ form.exponentChars))
    (fun isFirst => (form.unsigned_head? _ isFirst).1 rfl)
    (fun isFirst => (form.unsigned_head? _ isFirst).2 rfl)
  have whole := takeDigits_chars form.whole (form.fractionChars ++ form.exponentChars)
    fun c isFirst => (form.afterWhole_stop c isFirst).1
  have fraction := takePoint_chars form.fraction form.exponentChars fun c isFirst =>
    ⟨(form.exponentChars_stop c isFirst).1, (form.exponentChars_stop c isFirst).2.1⟩
  have nonempty := form.digits_ne_nil
  rw [← fractionChars] at fraction
  rw [chars, Numeral.read?_eq]
  simp only [signed, whole, fraction]
  rw [if_neg, form.readExponent?_exponentChars]
  · rfl
  · simp only [List.isEmpty_map, Bool.and_eq_true, List.isEmpty_iff]
    exact fun none => nonempty.elim (fun some => some none.1) (fun some => some none.2)

/-- A text that reads as a numeral is that of a decimal form. -/
theorem exists_of_read? {text : List Char} {numeral : Numeral}
    (reads : Numeral.read? text = some numeral) :
    ∃ form : DecimalForm, form.chars = text ∧ form.numeral = numeral := by
  obtain ⟨sign, signSplit, isMinus⟩ := takeSign_eq text
  obtain ⟨whole, wholeValues, wholeSplit, -⟩ := takeDigits_eq (takeSign text).2
  obtain ⟨fraction, values, pointSplit⟩ := takePoint_eq (takeDigits (takeSign text).2).2
  rw [Numeral.read?_eq] at reads
  dsimp only at reads
  rw [wholeValues, values] at reads
  split at reads
  · cases reads
  · next some =>
    obtain ⟨exponent, ended, isNumeral⟩ := Option.map_eq_some_iff.mp reads
    obtain ⟨exponentForm, exponentSplit, exponentValue⟩ := ExponentForm.eq_of_readExponent? ended
    have nonempty : whole ≠ [] ∨ fraction.getD [] ≠ [] := by
      rw [List.isEmpty_map, List.isEmpty_map, Bool.and_eq_true, List.isEmpty_iff, List.isEmpty_iff,
        not_and_or] at some
      exact some
    refine ⟨⟨sign, whole, fraction, exponentForm, nonempty⟩, ?_, ?_⟩
    · rw [signSplit, wholeSplit, pointSplit, exponentSplit]
      rfl
    · rw [← isNumeral, isMinus, exponentValue]
      rfl

/-- A text reads as a numeral exactly if it is a form of it. -/
theorem read?_eq_some_iff {text : List Char} {numeral : Numeral} :
    Numeral.read? text = some numeral ↔
      ∃ form : DecimalForm, form.chars = text ∧ form.numeral = numeral := by
  refine ⟨exists_of_read?, ?_⟩
  rintro ⟨form, rfl, rfl⟩
  exact form.read?_chars

end DecimalForm

end ScriptCore
