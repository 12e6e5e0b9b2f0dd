import ScriptCore.Json.Printer
import ScriptCore.Json.Reader
import ScriptCore.Proofs.Number.Arithmetic
import ScriptCore.Proofs.Number.RoundTrip

/-! # JSON texts of strings and numbers

The reader undoes every escape of the printer, so a string reads back from between its quotes. A
number is written as a numeral without superfluous zeros, which the reader takes off the text up to
what cannot continue it. A numeral that shows neither a fraction nor an exponent is an integer, and
one that a double holds exactly reads back.
-/

namespace ScriptCore

namespace Json

variable {double? : Numeral → Option Double} {rest : List Char}

/-! ## Strings -/

theorem takeChars?_letter {letter c : Char} (isEscape : escaped? letter = some c)
    (rest : List Char) :
    takeChars? ('\\' :: letter :: rest) =
      (takeChars? rest).map fun read => (c :: read.1, read.2) := by
  unfold escaped? at isEscape
  split at isEscape <;> cases isEscape <;> rfl

theorem takeChars?_plain {c : Char} (noQuote : c ≠ '"') (noEscape : c ≠ '\\')
    (visible : 0x20 ≤ c.toNat) (rest : List Char) :
    takeChars? (c :: rest) = (takeChars? rest).map fun read => (c :: read.1, read.2) := by
  rw [takeChars?.eq_4 c rest noQuote (fun _ _ _ _ _ same _ => noEscape same)
    fun _ _ same _ => noEscape same, if_neg]
  simp only [Bool.or_eq_true, decide_eq_true_iff, noEscape, false_or]
  exact Nat.not_lt.mpr visible

theorem hexUnit?_control : ∀ code < 0x20,
    hexUnit? '0' '0' (digitChar 16 (code / 16)) (digitChar 16 (code % 16)) = some code := by
  decide

theorem takeChars?_control {code : Nat} (control : code < 0x20) (rest : List Char) :
    takeChars? ('\\' :: 'u' :: '0' :: '0' :: digitChar 16 (code / 16) ::
        digitChar 16 (code % 16) :: rest) =
      (takeChars? rest).map fun read => (Char.ofNat code :: read.1, read.2) := by
  have low : isLowSurrogate code = false := by
    rw [isLowSurrogate, Bool.and_eq_false_iff, decide_eq_false_iff_not]
    omega
  have high : isHighSurrogate code = false := by
    rw [isHighSurrogate, Bool.and_eq_false_iff, decide_eq_false_iff_not]
    omega
  simp only [takeChars?.eq_2, hexUnit?_control code control, high, low, Bool.false_eq_true,
    if_false]

/-- A character is escaped by a letter, by its code or not at all. -/
theorem escapeChar_cases (c : Char) :
    (∃ letter, escapeChar c = ['\\', letter] ∧ escaped? letter = some c) ∨
      (c.toNat < 0x20 ∧ escapeChar c =
        ['\\', 'u', '0', '0', digitChar 16 (c.toNat / 16), digitChar 16 (c.toNat % 16)]) ∨
      (c ≠ '"' ∧ c ≠ '\\' ∧ 0x20 ≤ c.toNat ∧ escapeChar c = [c]) := by
  have escaped {letter : Char} {n : Nat} (same : c.toNat = n)
      (isEscape : escaped? letter = some (Char.ofNat n)) : escaped? letter = some c := by
    rw [isEscape, ← same, Char.ofNat_toNat]
  unfold escapeChar
  by_cases isQuote : c = '"'
  · exact .inl ⟨'"', if_pos isQuote, isQuote.symm ▸ rfl⟩
  rw [if_neg isQuote]
  by_cases backslash : c = '\\'
  · exact .inl ⟨'\\', if_pos backslash, backslash.symm ▸ rfl⟩
  rw [if_neg backslash]
  by_cases backspace : c.toNat = 0x08
  · exact .inl ⟨'b', if_pos backspace, escaped backspace rfl⟩
  rw [if_neg backspace]
  by_cases formFeed : c.toNat = 0x0C
  · exact .inl ⟨'f', if_pos formFeed, escaped formFeed rfl⟩
  rw [if_neg formFeed]
  by_cases lineFeed : c.toNat = 0x0A
  · exact .inl ⟨'n', if_pos lineFeed, escaped lineFeed rfl⟩
  rw [if_neg lineFeed]
  by_cases carriageReturn : c.toNat = 0x0D
  · exact .inl ⟨'r', if_pos carriageReturn, escaped carriageReturn rfl⟩
  rw [if_neg carriageReturn]
  by_cases tab : c.toNat = 0x09
  · exact .inl ⟨'t', if_pos tab, escaped tab rfl⟩
  rw [if_neg tab]
  by_cases control : c.toNat < 0x20
  · exact .inr (.inl ⟨control, if_pos control⟩)
  · exact .inr (.inr ⟨isQuote, backslash, Nat.le_of_not_lt control, if_neg control⟩)

/-- Each character is taken back from its escape. -/
theorem takeChars?_escapeChar (c : Char) (rest : List Char) :
    takeChars? (escapeChar c ++ rest) =
      (takeChars? rest).map fun read => (c :: read.1, read.2) := by
  obtain ⟨letter, escape, isEscape⟩ | ⟨control, escape⟩ | ⟨noQuote, noEscape, visible, escape⟩ :=
    escapeChar_cases c
  · rw [escape]
    exact takeChars?_letter isEscape rest
  · have taken := takeChars?_control control rest
    rw [Char.ofNat_toNat] at taken
    rw [escape]
    exact taken
  · rw [escape]
    exact takeChars?_plain noQuote noEscape visible rest

theorem takeString?_quote (s : String) (rest : List Char) :
    takeString? ((quote s).toList ++ rest) = some (s, rest) := by
  have body (chars : List Char) :
      takeChars? (chars.flatMap escapeChar ++ '"' :: rest) = some (chars, rest) := by
    induction chars with
    | nil => rfl
    | cons c chars ih =>
      rw [List.flatMap_cons, List.append_assoc, takeChars?_escapeChar, ih]
      rfl
  rw [quote, String.toList_ofList, List.cons_append, List.cons_append, List.append_assoc,
    List.singleton_append, takeString?, body, Option.map_some]
  dsimp only
  rw [String.ofList_toList]

/-! ## Words -/

theorem takeWord?_append (word : String) (value : Json) (rest : List Char) :
    takeWord? word value (word.toList ++ rest) = some (value, rest) := by
  rw [takeWord?, if_pos (List.isPrefixOf_iff_prefix.mpr (List.prefix_append ..)),
    ← String.length_toList, List.drop_left]

theorem takeValue?_null (limit depth : Nat) (rest : List Char) :
    takeValue? double? limit depth ("null".toList ++ rest) = some (.null, rest) := by
  cases depth <;> exact takeWord?_append "null" .null rest

theorem takeValue?_boolean (limit depth : Nat) (b : Bool) (rest : List Char) :
    takeValue? double? limit depth ((render (.boolean b)).toList ++ rest) =
      some (.boolean b, rest) := by
  rw [render]
  cases b with
  | true => cases depth <;> exact takeWord?_append "true" (.boolean true) rest
  | false => cases depth <;> exact takeWord?_append "false" (.boolean false) rest

/-! ## Numerals -/

/-- What comes after a numeral and is no part of it. -/
def EndsNumeral (rest : List Char) : Prop :=
  ∀ c ∈ rest.head?, digitValue? 10 c = none ∧ c ≠ '.' ∧ c ≠ 'e' ∧ c ≠ 'E'

theorem takeMinus_of_unsigned {text : List Char} (unsigned : '-' ∉ text.head?) :
    takeMinus text = (false, text) := by
  unfold takeMinus
  split
  · exact absurd rfl unsigned
  · rfl

theorem takeFraction?_chars {fraction : List Nat} (each : ∀ digit ∈ fraction, digit < 10)
    (ends : ∀ c ∈ rest.head?, digitValue? 10 c = none ∧ c ≠ '.') :
    takeFraction? (Numeral.fractionChars fraction ++ rest) = some (fraction, rest) := by
  rw [Numeral.fractionChars]
  cases fraction with
  | nil =>
    rw [List.isEmpty_nil, if_pos rfl, List.nil_append]
    unfold takeFraction?
    split
    · exact absurd rfl (ends '.' rfl).2
    · rfl
  | cons digit fraction =>
    have taken := takeDigits_append each fun c isFirst => (ends c isFirst).1
    rw [List.isEmpty_cons, if_neg Bool.false_ne_true, List.cons_append, takeFraction?, taken]

theorem takeExponent?_chars (plus : Bool) (exponent : Option Int) (ends : EndsNumeral rest) :
    takeExponent? (Numeral.exponentChars plus exponent ++ rest) = some (exponent, rest) := by
  cases exponent with
  | none =>
    rw [Numeral.exponentChars, List.nil_append]
    unfold takeExponent?
    split
    · exact absurd rfl (ends 'e' rfl).2.2.1
    · exact absurd rfl (ends 'E' rfl).2.2.2
    · rfl
  | some exponent =>
    have signed := Numeral.takeSign_renderExponent plus exponent rest
    have taken := takeDigits_append (digitsOf_lt (by decide) exponent.natAbs) fun c isFirst =>
      (ends c isFirst).1
    have value : ofLongDigits 10 (digitsOf 10 exponent.natAbs) = exponent.natAbs := by
      rw [ofLongDigits_eq, ofDigits_digitsOf (by decide)]
    have nonempty : digitsOf 10 exponent.natAbs ≠ [] := digitsOf_ne_nil (by decide) _
    rw [Numeral.exponentChars, List.cons_append, takeExponent?]
    simp only [signed, taken]
    generalize digitsOf 10 exponent.natAbs = digits at *
    cases digits with
    | nil => exact absurd rfl nonempty
    | cons digit digits =>
      have restored : (if exponent < 0 then -(exponent.natAbs : Int) else exponent.natAbs) =
          exponent := by
        split <;> omega
      simp only [value, decide_eq_true_eq, restored]

theorem takeNumeral?_chars {numeral : Numeral} (strict : numeral.IsStrict) (plus : Bool)
    (ends : EndsNumeral rest) :
    takeNumeral? (numeral.chars 10 plus ++ rest) = some (numeral, rest) := by
  have exponentTaken := takeExponent?_chars plus numeral.exponent ends
  have exponentStops : ∀ c ∈ (Numeral.exponentChars plus numeral.exponent ++ rest).head?,
      digitValue? 10 c = none ∧ c ≠ '.' := by
    cases numeral.exponent with
    | none => exact fun c isFirst => ⟨(ends c isFirst).1, (ends c isFirst).2.1⟩
    | some exponent => exact Numeral.exponentChars_stop plus (some exponent)
  have fractionTaken := takeFraction?_chars strict.fraction exponentStops
  have fractionStops : ∀ c ∈ (Numeral.fractionChars numeral.fraction ++
      (Numeral.exponentChars plus numeral.exponent ++ rest)).head?, digitValue? 10 c = none := by
    rw [Numeral.fractionChars]
    split
    · exact fun c isFirst => (exponentStops c isFirst).1
    · rintro c isFirst
      obtain rfl : '.' = c := Option.some.inj isFirst
      decide
  have wholeTaken := takeDigits_append strict.whole fractionStops
  have signed : takeMinus (numeral.chars 10 plus ++ rest) =
      (numeral.negative, numeral.whole.map (digitChar 10) ++
        (Numeral.fractionChars numeral.fraction ++
          (Numeral.exponentChars plus numeral.exponent ++ rest))) := by
    rw [Numeral.chars_eq]
    simp only [List.append_assoc]
    cases numeral.negative with
    | true => rfl
    | false =>
      apply takeMinus_of_unsigned
      intro isFirst
      exact (Numeral.unsigned_digits strict.whole strict.whole_ne_nil _ _ isFirst).1 rfl
  have nonempty := strict.whole_ne_nil
  have leading := strict.leading
  obtain ⟨negative, whole, fraction, exponent⟩ := numeral
  rw [takeNumeral?]
  simp only [signed, wholeTaken]
  split
  · next empty => exact absurd (congrArg Prod.fst empty) nonempty
  · next digit digits _ padded =>
    obtain rfl : whole = 0 :: digit :: digits := congrArg Prod.fst padded
    cases leading rfl
  · next same =>
    cases same
    simp only [fractionTaken, exponentTaken, Option.bind_eq_bind, Option.bind_some]
    rfl

/-! ## Numbers -/

variable {numeral : Numeral}

theorem exists_first (legible : numeral.Legible) (plus : Bool) :
    ∃ c left, numeral.chars 10 plus = c :: left ∧ c ∈ Numeral.alphabet := by
  have plain := numeral.chars_subset plus
  have nonempty : numeral.chars 10 plus ≠ [] := by
    rw [Numeral.chars_eq]
    simp [legible.whole_ne_nil]
  generalize numeral.chars 10 plus = text at *
  cases text with
  | nil => exact absurd rfl nonempty
  | cons c left => exact ⟨c, left, rfl, plain (List.mem_cons_self ..)⟩

theorem isSpace_eq_false {c : Char} (isPart : c ∈ Numeral.alphabet) : isSpace c = false := by
  have visible : Numeral.alphabet.all (fun c => !isSpace c) = true := by decide
  simpa using List.all_eq_true.mp visible c isPart

/-- A numeral is read as the number that is made of it. -/
theorem takeValue?_chars (strict : numeral.IsStrict) (plus : Bool) (limit depth : Nat)
    (ends : EndsNumeral rest) :
    takeValue? double? limit depth (numeral.chars 10 plus ++ rest) =
      (numberOf? double? numeral).map (·, rest) := by
  have number : takeNumber? double? (numeral.chars 10 plus ++ rest) =
      (numberOf? double? numeral).map (·, rest) := by
    rw [takeNumber?, takeNumeral?_chars strict plus ends]
    cases isNumber : numberOf? double? numeral <;> simp [isNumber]
  obtain ⟨c, left, opened, isPart⟩ := exists_first strict.toLegible plus
  have foreign {other : Char} (same : c = other) (isForeign : other ∉ Numeral.alphabet) : False :=
    isForeign (same ▸ isPart)
  rw [opened, List.cons_append] at number ⊢
  unfold takeValue?
  split
  · next empty => cases empty
  · next other => exact (foreign (List.head_eq_of_cons_eq other) (by decide)).elim
  · next other => exact (foreign (List.head_eq_of_cons_eq other) (by decide)).elim
  · next other => exact (foreign (List.head_eq_of_cons_eq other) (by decide)).elim
  · next other => exact (foreign (List.head_eq_of_cons_eq other) (by decide)).elim
  · next other => exact (foreign (List.head_eq_of_cons_eq other) (by decide)).elim
  · next other => exact (foreign (List.head_eq_of_cons_eq other) (by decide)).elim
  · exact number

theorem readWritten?_numeral (strict : numeral.IsStrict) (plus : Bool) :
    readWritten? double? (numeral.render 10 plus) = numberOf? double? numeral := by
  have spaceless : skipSpaces (numeral.chars 10 plus) = numeral.chars 10 plus := by
    obtain ⟨c, left, opened, isPart⟩ := exists_first strict.toLegible plus
    rw [opened]
    exact List.dropWhile_cons_of_neg (Bool.eq_false_iff.mp (isSpace_eq_false isPart))
  have ends : EndsNumeral [] := fun c isFirst => nomatch isFirst
  have taken : takeValue? double? (numeral.render 10 plus).length 127 _ = _ :=
    takeValue?_chars strict plus _ 127 ends
  rw [List.append_nil] at taken
  rw [readWritten?, Numeral.render, String.toList_ofList, spaceless, ← Numeral.render, taken]
  cases numberOf? double? numeral <;> rfl

theorem toString_eq_render (n : Int) :
    toString n = Numeral.render ⟨n < 0, digitsOf 10 n.natAbs, [], none⟩ 10 true := by
  have digits (size : Nat) (negative : Bool) (same : n.natAbs = size) :
      (if negative then "-" else "") ++ size.repr =
        Numeral.render ⟨negative, digitsOf 10 n.natAbs, [], none⟩ 10 true := by
    rw [Nat.repr_eq_ofList_toDigits, toDigits_eq, Numeral.render, Numeral.chars_eq, same]
    cases negative <;> simp [Numeral.fractionChars, Numeral.exponentChars]
  change n.repr = _
  rw [Int.repr_eq_if]
  split
  · next positive =>
    rw [decide_eq_false (by omega), ← digits n.toNat false (by omega)]
    simp
  · next negative =>
    rw [decide_eq_true (by omega), ← digits (-n).toNat true (by omega)]
    rfl

theorem packDigits_eq {start : Nat} {digits : List Nat}
    (fits : digits.foldl (fun value digit => value * 10 + digit) start < 2 ^ 64) :
    packDigits start digits = (digits.foldl (fun value digit => value * 10 + digit) start, []) := by
  induction digits generalizing start with
  | nil => rfl
  | cons digit digits ih =>
    rw [List.foldl_cons] at fits
    have grown := le_foldl_digits digits (start * 10 + digit)
    rw [packDigits, if_pos (grown.trans_lt fits), ih fits, List.foldl_cons]

/-- An integer that a double holds exactly fits into 64 bits, with either sign. -/
theorem integerOf?_integer {n : Int} (small : n.natAbs ≤ 2 ^ 53) :
    integerOf? ⟨n < 0, digitsOf 10 n.natAbs, [], none⟩ = some n := by
  have value : (digitsOf 10 n.natAbs).foldl (fun value digit => value * 10 + digit) 0 = n.natAbs :=
    ofDigits_digitsOf (by decide) n.natAbs
  have packed : packDigits 0 (digitsOf 10 n.natAbs) = (n.natAbs, []) := by
    rw [packDigits_eq (value.trans_lt (by omega)), value]
  rw [integerOf?]
  simp only [packed]
  by_cases negative : n < 0
  · have restored : -(n.natAbs : Int) = n := by omega
    have held : (decide (0 < n.natAbs) && decide (n.natAbs ≤ 2 ^ 63)) = true := by
      rw [Bool.and_eq_true, decide_eq_true_iff, decide_eq_true_iff]
      omega
    rw [decide_eq_true negative, if_neg (by decide), if_pos held, restored]
  · have restored : (n.natAbs : Int) = n := by omega
    rw [decide_eq_false negative, if_pos (by decide), restored]

theorem strict_integer (n : Int) : Numeral.IsStrict ⟨n < 0, digitsOf 10 n.natAbs, [], none⟩ := by
  refine ⟨⟨digitsOf_lt (by decide) _, nofun, digitsOf_ne_nil (by decide) _, nofun⟩, ?_⟩
  exact eq_zero_of_head?_digitsOf (by decide)

/-- A numeral that shows a fraction or an exponent is no integer. -/
theorem integerOf?_marked (marked : numeral.fraction ≠ [] ∨ numeral.exponent ≠ none) :
    integerOf? numeral = none := by
  unfold integerOf?
  split
  · next noFraction noExponent _ =>
    rcases marked with shown | shown
    · exact absurd noFraction shown
    · exact absurd noExponent shown
  · rfl

end Json

end ScriptCore
