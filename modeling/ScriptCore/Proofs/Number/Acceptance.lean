import Mathlib.Data.List.TakeWhile
import ScriptCore.Proofs.Number.Arithmetic
import ScriptCore.Proofs.Number.Grammar
import ScriptCore.Proofs.Number.Nearest

/-! # What reads as a number

A text reads as not-a-number unless it is blank or, between blanks, one of the forms of a number. A
decimal form is rounded to the double nearest to its value. This is so with every parser that does
what its documentation says: the filter before it lets through all decimal forms and none of the
names that a parser knows.

The parser in use does so as long as it takes in all digits of the exponent, or there are so few
others that the ones left out do not matter: an exponent of that size lies beyond the range of
doubles, and only tens of thousands of digits bring it back.
-/

namespace ScriptCore

/-! ## Blanks -/

/-- What is left of a text when the blanks at both ends are taken away. -/
structure IsTrimmed (trimmed text : List Char) : Prop where
  split : ∃ before after, text = before ++ trimmed ++ after ∧ ∀ c ∈ before ++ after, isBlank c = true
  first : ∀ c ∈ trimmed.head?, isBlank c = false
  last : ∀ c ∈ trimmed.getLast?, isBlank c = false

theorem head?_dropWhile_isBlank (text : List Char) :
    ∀ c ∈ (text.dropWhile isBlank).head?, isBlank c = false := by
  intro c isFirst
  have visible := List.head?_dropWhile_not isBlank text
  rw [Option.mem_def.mp isFirst] at visible
  exact visible

theorem dropWhile_isBlank_of_head? {text : List Char}
    (visible : ∀ c ∈ text.head?, isBlank c = false) :
    text.dropWhile isBlank = text := by
  cases text with
  | nil => rfl
  | cons c rest => exact List.dropWhile_cons_of_neg (Bool.eq_false_iff.mp (visible c rfl))

theorem isTrimmed_trimBlanks (text : List Char) : IsTrimmed (trimBlanks text) text := by
  have front := List.takeWhile_append_dropWhile (p := isBlank) (l := text)
  have back := List.takeWhile_append_dropWhile (p := isBlank) (l := (text.dropWhile isBlank).reverse)
  have kept : text.dropWhile isBlank =
      trimBlanks text ++ ((text.dropWhile isBlank).reverse.takeWhile isBlank).reverse := by
    rw [trimBlanks, ← List.reverse_append, back, List.reverse_reverse]
  refine ⟨⟨text.takeWhile isBlank, ((text.dropWhile isBlank).reverse.takeWhile isBlank).reverse,
    ?_, ?_⟩, ?_, ?_⟩
  · rw [List.append_assoc, ← kept, front]
  · intro c isOuter
    rcases List.mem_append.mp isOuter with isBefore | isAfter
    · exact List.mem_takeWhile_imp isBefore
    · exact List.mem_takeWhile_imp (List.mem_reverse.mp isAfter)
  · intro c isFirst
    apply head?_dropWhile_isBlank text
    rw [kept, List.head?_append, Option.mem_def.mp isFirst]
    rfl
  · intro c isLast
    rw [trimBlanks, List.getLast?_reverse] at isLast
    exact head?_dropWhile_isBlank _ c isLast

/-- The blanks at both ends determine what is between them. -/
theorem isTrimmed_iff {trimmed text : List Char} :
    IsTrimmed trimmed text ↔ trimmed = trimBlanks text := by
  refine ⟨?_, fun isTrimmed => isTrimmed ▸ isTrimmed_trimBlanks text⟩
  rintro ⟨⟨before, after, rfl, blank⟩, first, last⟩
  have front : ∀ c ∈ before, isBlank c = true := fun c isBefore =>
    blank c (List.mem_append_left _ isBefore)
  have back : ∀ c ∈ after.reverse, isBlank c = true := fun c isAfter =>
    blank c (List.mem_append_right _ (List.mem_reverse.mp isAfter))
  rw [trimBlanks, List.append_assoc, List.dropWhile_append_of_pos front]
  rcases eq_or_ne trimmed [] with rfl | nonempty
  · have none : after.dropWhile isBlank = [] :=
      List.dropWhile_eq_nil_iff.mpr fun c isAfter => blank c (List.mem_append_right _ isAfter)
    rw [List.nil_append, none]
    rfl
  · have visible : ∀ c ∈ (trimmed ++ after).head?, isBlank c = false := by
      rw [List.head?_append_of_ne_nil _ nonempty]
      exact first
    rw [dropWhile_isBlank_of_head? visible, List.reverse_append, List.dropWhile_append_of_pos back,
      dropWhile_isBlank_of_head?, List.reverse_reverse]
    rw [List.head?_reverse]
    exact last

/-! ## Prefixed integers -/

theorem digitValue?_isSome_iff (mark : RadixMark) (c : Char) :
    (digitValue? mark.radix c).isSome ↔ c ∈ mark.alphabet := by
  have inAlphabet : ∀ code < 128, (digitValue? mark.radix (Char.ofNat code)).isSome →
      Char.ofNat code ∈ mark.alphabet := by
    cases mark <;> decide +kernel
  have hasValue : mark.alphabet.all fun c => (digitValue? mark.radix c).isSome := by
    cases mark <;> decide
  refine ⟨fun isSome => ?_, fun isDigit => List.all_eq_true.mp hasValue c isDigit⟩
  have ascii : c.toNat < 128 := by
    have nine : '9'.toNat = 57 := rfl
    have small : 'z'.toNat = 122 := rfl
    have capital : 'Z'.toNat = 90 := rfl
    by_contra beyond
    unfold digitValue? at isSome
    simp only [nine, small, capital, Bool.and_eq_true, decide_eq_true_iff] at isSome
    rw [if_neg] at isSome
    · exact Bool.false_ne_true isSome
    · split_ifs <;> omega
  rw [← Char.ofNat_toNat c] at isSome ⊢
  exact inAlphabet c.toNat ascii isSome

namespace Double

/-- Takes one more digit into an integer. -/
def readDigit? (radix : ℕ) (value : Option Double) (c : Char) : Option Double := do
  let digit ← digitValue? radix c
  (← value) * ofNat radix + ofNat digit

theorem readDigits_eq (radix : ℕ) (digits : List Char) :
    readDigits radix digits =
      if digits.isEmpty then nan else (digits.foldl (readDigit? radix) (some zero)).getD nan := by
  rfl

theorem exists_add_unsigned (a b : Magnitude) :
    ∃ m, signed false a + signed false b = signed false m := by
  have positive : ¬signedUnits false a + signedUnits false b < 0 := by
    simp only [signedUnits, if_neg Bool.false_ne_true]
    omega
  change ∃ m, add (signed false a) (signed false b) = signed false m
  simp only [add, nearest, decide_eq_false positive, bne_self_eq_false, Bool.and_false,
    Bool.false_eq_true, if_false]
  split_ifs <;> exact ⟨_, rfl⟩

theorem exists_mul_unsigned (a : Magnitude) {b : Magnitude} (finite : b.isInfinite = false)
    (nonzero : b.isZero = false) : ∃ m, signed false a * signed false b = signed false m := by
  have positive : a.isInfinite = true → a.isZero = false := by
    intro infinite
    rw [Magnitude.isInfinite, beq_iff_eq] at infinite
    rw [Magnitude.isZero, infinite]
    rfl
  change ∃ m, mul (signed false a) (signed false b) = signed false m
  rw [mul, finite, nonzero, Bool.or_false, Bool.or_false]
  split_ifs with infinite zero
  · exact absurd zero (Bool.eq_false_iff.mp (positive infinite))
  · exact ⟨_, rfl⟩
  · exact ⟨_, rfl⟩

theorem exists_foldl_readDigit? (mark : RadixMark) {digits : List Char}
    (valid : digits ⊆ mark.alphabet) (m : Magnitude) :
    ∃ k, digits.foldl (readDigit? mark.radix) (some (signed false m)) = some (signed false k) := by
  obtain ⟨base, isBase, finite, nonzero⟩ : ∃ base, ofNat mark.radix = signed false base ∧
      base.isInfinite = false ∧ base.isZero = false :=
    ⟨_, rfl, by cases mark <;> decide +kernel, by cases mark <;> decide +kernel⟩
  induction digits generalizing m with
  | nil => exact ⟨m, rfl⟩
  | cons c digits ih =>
    obtain ⟨isDigit, others⟩ := List.cons_subset.mp valid
    obtain ⟨digit, isValue⟩ :=
      Option.isSome_iff_exists.mp ((digitValue?_isSome_iff mark c).mpr isDigit)
    obtain ⟨product, isProduct⟩ := exists_mul_unsigned m finite nonzero
    obtain ⟨sum, isSum⟩ := exists_add_unsigned product (.nearest (digit * Magnitude.unitsPerOne) 1)
    have step : readDigit? mark.radix (some (signed false m)) c = some (signed false sum) := by
      rw [readDigit?, isValue, isBase]
      exact congrArg some (isProduct ▸ isSum)
    rw [List.foldl_cons, step]
    exact ih others sum

theorem exists_readDigits (mark : RadixMark) {digits : List Char} (nonempty : digits ≠ [])
    (valid : digits ⊆ mark.alphabet) : ∃ m, readDigits mark.radix digits = signed false m := by
  obtain ⟨m, isValue⟩ := exists_foldl_readDigit? mark valid .zero
  refine ⟨m, ?_⟩
  rw [readDigits_eq, if_neg (by simpa using nonempty), zero, isValue]
  rfl

theorem foldl_readDigit?_none (radix : ℕ) (digits : List Char) :
    digits.foldl (readDigit? radix) none = none := by
  induction digits with
  | nil => rfl
  | cons c digits ih =>
    have stays : readDigit? radix none c = none := by
      cases value : digitValue? radix c <;> rw [readDigit?, value] <;> rfl
    rw [List.foldl_cons, stays, ih]

theorem readDigits_of_not_subset (mark : RadixMark) {digits : List Char}
    (invalid : ¬digits ⊆ mark.alphabet) : readDigits mark.radix digits = nan := by
  obtain ⟨c, isPart, foreign⟩ : ∃ c ∈ digits, c ∉ mark.alphabet := by
    simpa [List.subset_def] using invalid
  have valueless : digitValue? mark.radix c = none := by
    rw [← Option.not_isSome_iff_eq_none, digitValue?_isSome_iff]
    exact foreign
  obtain ⟨before, after, rfl⟩ := List.append_of_mem isPart
  have stops (value : Option Double) : readDigit? mark.radix value c = none := by
    rw [readDigit?, valueless]
    rfl
  rw [readDigits_eq, List.foldl_append, List.foldl_cons, stops, foldl_readDigit?_none]
  exact ite_self _

theorem takePrefix?_eq_some_iff {text digits : List Char} {radix : ℕ} :
    takePrefix? text = some (digits, radix) ↔ ∃ (mark : RadixMark) (capital : Bool),
      text = '0' :: mark.letter capital :: digits ∧ radix = mark.radix := by
  constructor
  · intro found
    obtain ⟨mark, isMark, isPrefix⟩ := List.exists_of_findSome?_eq_some found
    obtain ⟨rest, isRest, same⟩ := Option.map_eq_some_iff.mp isPrefix
    obtain ⟨rfl, rfl⟩ := Prod.mk.inj same
    rw [List.isPrefixOf?_eq_some_iff_append_eq] at isRest
    subst isRest
    simp only [prefixes, List.mem_cons, List.not_mem_nil, or_false] at isMark
    rcases isMark with rfl | rfl | rfl | rfl | rfl | rfl
    · exact ⟨.hexadecimal, false, rfl, rfl⟩
    · exact ⟨.hexadecimal, true, rfl, rfl⟩
    · exact ⟨.octal, false, rfl, rfl⟩
    · exact ⟨.octal, true, rfl, rfl⟩
    · exact ⟨.binary, false, rfl, rfl⟩
    · exact ⟨.binary, true, rfl, rfl⟩
  · rintro ⟨mark, capital, rfl, rfl⟩
    cases mark <;> cases capital <;> rfl

theorem readTrimmedBy_prefixed (parse : Parser) (mark : RadixMark) (capital : Bool)
    (digits : List Char) :
    readTrimmedBy parse ('0' :: mark.letter capital :: digits) = readDigits mark.radix digits := by
  cases mark <;> cases capital <;> rfl

end Double

/-! ## Decimal forms -/

namespace DecimalForm

theorem sign_subset (sign : SignMark) : sign.chars ⊆ Numeral.alphabet := by
  cases sign <;> decide

theorem chars_subset (form : DecimalForm) : form.chars ⊆ 'E' :: Numeral.alphabet := by
  have fraction : form.fractionChars ⊆ 'E' :: Numeral.alphabet := by
    rw [fractionChars]
    cases form.fraction with
    | none => exact List.nil_subset _
    | some digits =>
      exact List.cons_subset.mpr
        ⟨by decide, List.subset_cons_of_subset _ (Numeral.digitChars_subset _)⟩
  have exponent : form.exponentChars ⊆ 'E' :: Numeral.alphabet := by
    rw [exponentChars]
    cases form.exponent with
    | none => exact List.nil_subset _
    | some exponent =>
      have letter : (if exponent.capital then 'E' else 'e') ∈ 'E' :: Numeral.alphabet := by
        cases exponent.capital <;> decide
      apply List.cons_subset.mpr ⟨letter, List.subset_cons_of_subset _ _⟩
      exact List.append_subset.mpr ⟨sign_subset _, Numeral.digitChars_subset _⟩
  simp only [chars, List.append_subset]
  exact ⟨List.subset_cons_of_subset _ (sign_subset _),
    List.subset_cons_of_subset _ (Numeral.digitChars_subset _), fraction, exponent⟩

theorem chars_ne_nil (form : DecimalForm) : form.chars ≠ [] := by
  intro empty
  have reads := form.read?_chars
  rw [empty] at reads
  cases reads

theorem scale_numeral (form : DecimalForm) : form.numeral.scale = form.scale := by
  rw [Numeral.scale, numeral, List.length_map, scale]
  cases form.exponent <;> rfl

theorem numeral_digits (form : DecimalForm) :
    form.numeral.whole ++ form.numeral.fraction = form.digits.map Fin.val := by
  rw [digits, List.map_append]
  rfl

theorem toDouble_numeral (form : DecimalForm) :
    form.numeral.toDouble =
      Double.ofDecimal form.sign.isMinus (form.digits.map Fin.val) form.scale := by
  rw [Numeral.toDouble, numeral_digits, scale_numeral]
  rfl

end DecimalForm

/-! ## Parsers -/

namespace Double

/-- An optional sign before `inf`, `infinity` or `nan`, in small letters or capitals. -/
def IsSignedName (text : List Char) : Prop :=
  ∃ (sign : SignMark) (name : List Char), text = sign.chars ++ name ∧
    name.map Char.toLower ∈ ["inf".toList, "infinity".toList, "nan".toList]

namespace Parser

/-- A parser accepts the decimal forms, the signed names and nothing else. -/
structure HasSyntax (parse : Parser) : Prop where
  isSome_iff : ∀ text, (parse text).isSome ↔
    (∃ form : DecimalForm, form.chars = text) ∨ IsSignedName text

/-- What the library says of its parser. -/
structure IsDocumented (parse : Parser) : Prop extends HasSyntax parse where
  /-- A decimal form is rounded to the double nearest to its value, ties to even, under its sign. -/
  nearest : ∀ form : DecimalForm, ∃ m, parse form.chars = some (signed form.sign.isMinus m) ∧
    m.IsNearest (form.value * Magnitude.unitsPerOne)

end Parser

theorem ofName?_isSome_iff {name : List Char} :
    (ofName? name).isSome ↔
      name.map Char.toLower ∈ ["inf".toList, "infinity".toList, "nan".toList] := by
  simp only [ofName?, List.mem_cons, List.not_mem_nil, or_false]
  split
  · next infinite => exact iff_of_true rfl (infinite.elim .inl fun long => .inr (.inl long))
  · next other =>
    obtain ⟨short, long⟩ := not_or.mp other
    split
    · next isNaN => exact iff_of_true rfl (.inr (.inr isNaN))
    · next isNaN =>
      exact iff_of_false Bool.false_ne_true fun isName => isName.elim short (·.elim long isNaN)

/-- A sign before a name is taken off. -/
theorem takeSign_name (sign : SignMark) {name : List Char}
    (isName : name.map Char.toLower ∈ ["inf".toList, "infinity".toList, "nan".toList]) :
    takeSign (sign.chars ++ name) = (sign.isMinus, name) := by
  have letters : ∀ word ∈ ["inf".toList, "infinity".toList, "nan".toList],
      word.head?.all (fun c => c ∈ ['i', 'n']) = true := by decide
  have first : ∀ c ∈ name.head?, c.toLower ∈ ['i', 'n'] := by
    intro c isFirst
    have initial := letters _ isName
    rw [List.head?_map, Option.mem_def.mp isFirst] at initial
    exact of_decide_eq_true initial
  exact takeSign_chars sign name (fun minus => absurd (first _ minus) (by decide))
    fun plus => absurd (first _ plus) (by decide)

theorem parseBy?_hasSyntax (ofNumeral : Numeral → Double) : (parseBy? ofNumeral).HasSyntax where
  isSome_iff text := by
    constructor
    · intro accepted
      obtain ⟨sign, split, -⟩ := takeSign_eq text
      cases isName : ofName? (takeSign text).2 with
      | some n =>
        exact .inr ⟨sign, _, split, ofName?_isSome_iff.mp (Option.isSome_of_eq_some isName)⟩
      | none =>
        simp only [parseBy?, isName, Option.isSome_map] at accepted
        obtain ⟨numeral, reads⟩ := Option.isSome_iff_exists.mp accepted
        obtain ⟨form, isForm, -⟩ := DecimalForm.read?_eq_some_iff.mp reads
        exact .inl ⟨form, isForm⟩
    · rintro (⟨form, rfl⟩ | ⟨sign, name, rfl, isName⟩)
      · rw [parseBy?_of_subset form.chars_subset, form.read?_chars]
        rfl
      · obtain ⟨n, isNumber⟩ := Option.isSome_iff_exists.mp (ofName?_isSome_iff.mpr isName)
        simp only [parseBy?, takeSign_name sign isName, isNumber]
        rfl

theorem parse?_isDocumented : parse?.IsDocumented where
  toHasSyntax := parseBy?_hasSyntax _
  nearest form := by
    obtain ⟨m, isValue, isNearest⟩ :=
      ofDecimal_isNearest form.sign.isMinus (val_lt form.digits) form.scale
    refine ⟨m, ?_, isNearest⟩
    rw [parse?, parseBy?_of_subset form.chars_subset, form.read?_chars, Option.map_some,
      form.toDouble_numeral, isValue]

/-! ## Acceptance -/

variable {parse : Parser}

theorem readTrimmedBy_infinity (parse : Parser) (sign : SignMark) :
    readTrimmedBy parse (NumberForm.infinity sign).chars = signed sign.isMinus .infinity := by
  cases sign <;> rfl

/-- The filter keeps names from the parser. -/
theorem not_isSignedName_of_subset {text : List Char} (plain : text ⊆ 'E' :: Numeral.alphabet) :
    ¬IsSignedName text := by
  rintro ⟨sign, name, rfl, isName⟩
  have some := ofName?_isSome_iff.mpr isName
  rw [ofName?_of_subset (List.append_subset.mp plain).2] at some
  exact Bool.false_ne_true some

theorem readTrimmedBy_form_ne_nan (documented : parse.IsDocumented) (form : NumberForm) :
    readTrimmedBy parse form.chars ≠ nan := by
  cases form with
  | infinity sign =>
    rw [readTrimmedBy_infinity]
    nofun
  | prefixed mark capital digits nonempty valid =>
    obtain ⟨m, isValue⟩ := exists_readDigits mark nonempty valid
    rw [NumberForm.chars, readTrimmedBy_prefixed, isValue]
    nofun
  | decimal form =>
    obtain ⟨m, isValue, -⟩ := documented.nearest form
    rw [NumberForm.chars, readTrimmedBy_of_subset form.chars_subset form.chars_ne_nil, isValue]
    nofun

/-- A text without blanks around it that reads as a number is empty or one of the forms. -/
theorem exists_form_of_readTrimmedBy (hasSyntax : parse.HasSyntax) {text : List Char}
    (nonempty : text ≠ []) (reads : readTrimmedBy parse text ≠ nan) :
    ∃ form : NumberForm, form.chars = text := by
  rw [readTrimmedBy, if_neg (by simpa using nonempty)] at reads
  split at reads
  · next infinite =>
    rcases infinite with rfl | rfl
    · exact ⟨.infinity .absent, rfl⟩
    · exact ⟨.infinity .plus, rfl⟩
  · split at reads
    · next infinite => exact ⟨.infinity .minus, infinite.symm⟩
    · split at reads
      · next digits radix isPrefixed =>
        obtain ⟨mark, capital, rfl, rfl⟩ := takePrefix?_eq_some_iff.mp isPrefixed
        have some : digits ≠ [] := by
          rintro rfl
          exact reads rfl
        have valid : digits ⊆ mark.alphabet := by
          by_contra invalid
          exact reads (readDigits_of_not_subset mark invalid)
        exact ⟨.prefixed mark capital digits some valid, rfl⟩
      · split at reads
        · next plain =>
          have accepted : (parse text).isSome := by
            by_contra refused
            exact reads (by rw [Option.not_isSome_iff_eq_none.mp refused, Option.getD_none])
          obtain ⟨form, isForm⟩ := ((hasSyntax.isSome_iff text).mp accepted).resolve_right
            (not_isSignedName_of_subset (hasNumeralBytes_iff.mp plain))
          exact ⟨.decimal form, isForm⟩
        · exact absurd rfl reads

/-- With a parser that does what it should, a text reads as zero if it is blank and as not-a-number
exactly if, between blanks, it is none of the forms of a number. A form of infinity reads as it says
and a decimal form as the double nearest to it, under its sign. -/
theorem ofTextBy_accepts_grammar (documented : parse.IsDocumented) (text : String) :
    ∃ trimmed, (∀ other, IsTrimmed other text.toList ↔ other = trimmed) ∧
      (trimmed = [] → ofTextBy parse text = zero) ∧
      (ofTextBy parse text = nan ↔ trimmed ≠ [] ∧ ∀ form : NumberForm, trimmed ≠ form.chars) ∧
      (∀ sign, trimmed = (NumberForm.infinity sign).chars →
        ofTextBy parse text = signed sign.isMinus .infinity) ∧
      ∀ form : DecimalForm, trimmed = form.chars →
        ∃ m, ofTextBy parse text = signed form.sign.isMinus m ∧
          m.IsNearest (form.value * Magnitude.unitsPerOne) := by
  refine ⟨trimBlanks text.toList, fun _ => isTrimmed_iff, ?_, ⟨?_, ?_⟩, ?_, ?_⟩
  · intro blank
    rw [ofTextBy, blank]
    rfl
  · intro isNaN
    constructor
    · intro blank
      rw [ofTextBy, blank] at isNaN
      cases isNaN
    · intro form isForm
      rw [ofTextBy, isForm] at isNaN
      exact readTrimmedBy_form_ne_nan documented form isNaN
  · rintro ⟨nonempty, formless⟩
    by_contra reads
    obtain ⟨form, isForm⟩ := exists_form_of_readTrimmedBy documented.toHasSyntax nonempty reads
    exact formless form isForm.symm
  · intro sign isForm
    rw [ofTextBy, isForm, readTrimmedBy_infinity]
  · intro form isForm
    obtain ⟨m, isValue, isNearest⟩ := documented.nearest form
    refine ⟨m, ?_, isNearest⟩
    rw [ofTextBy, isForm, readTrimmedBy_of_subset form.chars_subset form.chars_ne_nil, isValue,
      Option.getD_some]

/-- Between a line feed and an ideographic space, `-.0e+7` reads as a negative zero. -/
theorem ofTextBy_accepts_grammar_negativeZero :
    let form : DecimalForm :=
      { sign := .minus, whole := [], fraction := some [0],
        exponent := some ⟨false, .plus, [7], by decide⟩, digits_ne_nil := by decide }
    parse?.IsDocumented ∧ IsTrimmed form.chars "\n-.0e+7\u3000".toList ∧
      ∃ m, ofTextBy parse? "\n-.0e+7\u3000" = signed true m ∧
        m.IsNearest (form.value * Magnitude.unitsPerOne) := by
  intro form
  obtain ⟨trimmed, isTrimmed, -, -, -, reads⟩ :=
    ofTextBy_accepts_grammar parse?_isDocumented "\n-.0e+7\u3000"
  have between : IsTrimmed form.chars "\n-.0e+7\u3000".toList := by
    refine ⟨⟨['\n'], ['\u3000'], by decide, List.all_eq_true.mp rfl⟩, ?_, ?_⟩
    · rintro c ⟨⟩
      rfl
    · rintro c ⟨⟩
      rfl
  exact ⟨parse?_isDocumented, between, reads form ((isTrimmed _).mp between).symm⟩

end Double

/-! ## The parser in use -/

/-- Digits of an exponent are left out only where a tenth of its size is `2^16` or more. -/
theorem Numeral.cappedSize_cases (size : ℕ) :
    cappedSize size = size ∧ size < 655360 ∨
      2 ^ 16 ≤ cappedSize size ∧ 10 * cappedSize size ≤ size := by
  fun_induction cappedSize size with
  | case1 size small => exact .inl ⟨rfl, small⟩
  | case2 size large ih => rcases ih with ⟨kept, -⟩ | ⟨beyond, tenth⟩ <;> omega

namespace DecimalForm

/-- Whether no digit of the exponent is left out, or the digits before and after the point are too
few to bring a value with such an exponent back into the range of doubles. -/
def IsModerate (form : DecimalForm) : Prop :=
  (∀ exponent ∈ form.exponent, digitsValue exponent.digits < 655360) ∨
    form.whole.length ≤ 65211 ∧ (form.fraction.getD []).length ≤ 65227

theorem scale_capped (form : DecimalForm) :
    form.numeral.capped.scale =
      (form.exponent.elim 0 fun exponent =>
        exponent.sign.apply (Numeral.cappedSize (digitsValue exponent.digits))) -
          (form.fraction.getD []).length := by
  have zero : Numeral.cappedSize 0 = 0 := Numeral.cappedSize_of_lt (by decide)
  rw [Numeral.scale, Numeral.capped, numeral, List.length_map]
  cases form.exponent with
  | none => rfl
  | some exponent =>
    simp only [Option.map_some, Option.getD_some, Option.elim_some, ExponentForm.value,
      SignMark.apply]
    generalize digitsValue exponent.digits = size
    cases exponent.sign.isMinus with
    | true =>
      rcases Nat.eq_zero_or_pos size with rfl | positive
      · simp [zero]
      · simp [positive]
    | false => simp

/-- The digits of the exponent that are left out do not change what a moderate form rounds to. -/
theorem IsModerate.toDouble_capped {form : DecimalForm} (moderate : form.IsModerate) :
    form.numeral.capped.toDouble = form.numeral.toDouble := by
  have taken : form.numeral.capped.toDouble = Double.ofDecimal form.sign.isMinus
      (form.digits.map Fin.val) form.numeral.capped.scale := by
    rw [← numeral_digits]
    rfl
  rw [taken, toDouble_numeral, scale_capped, scale]
  cases isExponent : form.exponent with
  | none => rfl
  | some exponent =>
    rw [Option.elim_some, Option.elim_some, ExponentForm.value]
    rcases Numeral.cappedSize_cases (digitsValue exponent.digits) with ⟨whole, -⟩ | ⟨large, larger⟩
    · rw [whole]
    · have few : form.whole.length ≤ 65211 ∧ (form.fraction.getD []).length ≤ 65227 := by
        rcases moderate with small | few
        · have bound := small exponent isExponent
          omega
        · exact few
      by_cases nonzero : (form.digits.map Fin.val).dropWhile (· == 0) = []
      · rw [Double.ofDecimal_of_zeros nonzero, Double.ofDecimal_of_zeros nonzero]
      · have some := List.length_pos_of_ne_nil nonzero
        have atMost : ((form.digits.map Fin.val).dropWhile (· == 0)).length ≤
            form.whole.length + (form.fraction.getD []).length := by
          rw [← List.length_append, ← digits, ← List.length_map (f := Fin.val)]
          exact (List.dropWhile_sublist _).length_le
        generalize (form.fraction.getD []).length = places at *
        cases isMinus : exponent.sign.isMinus with
        | true =>
          simp only [SignMark.apply, isMinus, if_true]
          rw [Double.ofDecimal_of_small nonzero, Double.ofDecimal_of_small nonzero] <;> omega
        | false =>
          simp only [SignMark.apply, isMinus, Bool.false_eq_true, if_false]
          rw [Double.ofDecimal_of_large nonzero, Double.ofDecimal_of_large nonzero] <;> omega

end DecimalForm

namespace Double

theorem parseBy?_congr {first second : Numeral → Double} {text : List Char}
    (same : ∀ numeral, Numeral.read? text = some numeral → first numeral = second numeral) :
    parseBy? first text = parseBy? second text := by
  unfold parseBy?
  dsimp only
  split
  · rfl
  · cases reads : Numeral.read? text with
    | none => rfl
    | some numeral => rw [Option.map_some, Option.map_some, same numeral reads]

/-- The parser in use is the one of the documentation, but for forms that are not moderate. -/
theorem parseCapped?_eq {text : List Char}
    (moderate : ∀ form : DecimalForm, form.chars = text → form.IsModerate) :
    parseCapped? text = parse? text := by
  refine parseBy?_congr fun numeral reads => ?_
  obtain ⟨form, isForm, rfl⟩ := DecimalForm.read?_eq_some_iff.mp reads
  exact (moderate form isForm).toDouble_capped

theorem ofText_eq_ofTextBy (text : String)
    (moderate : ∀ form : DecimalForm, form.chars = trimBlanks text.toList → form.IsModerate) :
    ofText text = ofTextBy parse? text := by
  rw [ofText, ofTextBy, ofTextBy, readTrimmedBy, readTrimmedBy, parseCapped?_eq moderate]

end Double

end ScriptCore
