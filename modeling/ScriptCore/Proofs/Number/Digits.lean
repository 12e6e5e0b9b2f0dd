import Mathlib.Data.Nat.Digits.Lemmas
import Mathlib.Tactic.Ring
import ScriptCore.Number.Reading

/-! # Digits and their values

Digits most significant first are the digits of the library in reverse, so values, bounds and the
round trip between naturals and digits come from there. Written digits are read back up to the first
character that is not one.
-/

namespace ScriptCore

variable {base : Nat}

theorem ofDigits_eq (base : Nat) (digits : List Nat) :
    ofDigits base digits = Nat.ofDigits base digits.reverse := by
  rw [Nat.ofDigits_eq_foldr, List.foldr_reverse, ofDigits]
  simp [Nat.mul_comm, Nat.add_comm]

theorem digitsUpward_eq (large : 1 < base) {fuel n : Nat} (enough : n < 2 ^ fuel) :
    digitsUpward base fuel n = Nat.digits base n := by
  induction fuel generalizing n with
  | zero =>
    obtain rfl : n = 0 := by omega
    simp [digitsUpward]
  | succ fuel ih =>
    rw [digitsUpward]
    split
    · next none => simp [none]
    · next some =>
      have less : n / base < 2 ^ fuel := by
        have half : n / base ≤ n / 2 := Nat.div_le_div_left large Nat.two_pos
        rw [Nat.pow_succ] at enough
        omega
      rw [Nat.digits_def' large (Nat.pos_of_ne_zero some), ih less]

theorem digitsOf_eq (large : 1 < base) {n : Nat} (positive : 0 < n) :
    digitsOf base n = (Nat.digits base n).reverse := by
  rw [digitsOf, if_neg positive.ne', digitsUpward_eq large Nat.lt_log2_self]

/-- The last digit is split off by one division. -/
theorem digitsOf_eq_div (large : 1 < base) (n : Nat) :
    digitsOf base n =
      if 0 < n / base then digitsOf base (n / base) ++ [n % base] else [n % base] := by
  rcases Nat.eq_zero_or_pos n with rfl | positive
  · simp [digitsOf]
  · rw [digitsOf_eq large positive, Nat.digits_def' large positive, List.reverse_cons]
    split
    · next more => rw [digitsOf_eq large more]
    · next last =>
      rw [Nat.eq_zero_of_not_pos last, Nat.digits_zero, List.reverse_nil, List.nil_append]

theorem ofDigits_digitsOf (large : 1 < base) (n : Nat) : ofDigits base (digitsOf base n) = n := by
  rcases Nat.eq_zero_or_pos n with rfl | positive
  · simp [digitsOf, ofDigits]
  · rw [ofDigits_eq, digitsOf_eq large positive, List.reverse_reverse, Nat.ofDigits_digits]

theorem digitsOf_lt (large : 1 < base) (n : Nat) : ∀ digit ∈ digitsOf base n, digit < base := by
  intro digit isDigit
  rcases Nat.eq_zero_or_pos n with rfl | positive
  · obtain rfl : digit = 0 := by simpa [digitsOf] using isDigit
    omega
  · rw [digitsOf_eq large positive, List.mem_reverse] at isDigit
    exact Nat.digits_lt_base large isDigit

theorem digitsOf_ne_nil (large : 1 < base) (n : Nat) : digitsOf base n ≠ [] := by
  rcases Nat.eq_zero_or_pos n with rfl | positive
  · simp [digitsOf]
  · rw [digitsOf_eq large positive, List.reverse_ne_nil_iff, Nat.digits_ne_nil_iff_ne_zero]
    exact positive.ne'

theorem ofDigits_append (base : Nat) (first second : List Nat) :
    ofDigits base (first ++ second) =
      ofDigits base first * base ^ second.length + ofDigits base second := by
  simp only [ofDigits_eq, List.reverse_append, Nat.ofDigits_append, List.length_reverse]
  ring

theorem ofDigits_zeros (base count : Nat) : ofDigits base (List.replicate count 0) = 0 := by
  rw [ofDigits_eq, List.reverse_replicate, Nat.ofDigits_replicate_zero]

theorem ofDigits_append_zeros (base : Nat) (digits : List Nat) (count : Nat) :
    ofDigits base (digits ++ List.replicate count 0) = ofDigits base digits * base ^ count := by
  rw [ofDigits_append, ofDigits_zeros, List.length_replicate, Nat.add_zero]

theorem ofDigits_zeros_append (base count : Nat) (digits : List Nat) :
    ofDigits base (List.replicate count 0 ++ digits) = ofDigits base digits := by
  rw [ofDigits_append, ofDigits_zeros, Nat.zero_mul, Nat.zero_add]

theorem ofDigits_lt (large : 1 < base) {digits : List Nat} (each : ∀ digit ∈ digits, digit < base) :
    ofDigits base digits < base ^ digits.length := by
  rw [ofDigits_eq, ← List.length_reverse]
  exact Nat.ofDigits_lt_base_pow_length large fun digit isDigit =>
    each digit (List.mem_reverse.mp isDigit)

/-- The value of digits behind others is a remainder, and that of the others the quotient. -/
theorem ofDigits_div_mod (large : 1 < base) (first : List Nat) {second : List Nat}
    (each : ∀ digit ∈ second, digit < base) :
    ofDigits base first = ofDigits base (first ++ second) / base ^ second.length ∧
      ofDigits base second = ofDigits base (first ++ second) % base ^ second.length := by
  have less := ofDigits_lt large each
  rw [ofDigits_append, Nat.mul_comm]
  exact ⟨by rw [Nat.mul_add_div (Nat.zero_lt_of_lt less), Nat.div_eq_of_lt less, Nat.add_zero],
    by rw [Nat.mul_add_mod, Nat.mod_eq_of_lt less]⟩

theorem lt_pow_length_digitsOf (large : 1 < base) (n : Nat) :
    n < base ^ (digitsOf base n).length := by
  have less := ofDigits_lt large (digitsOf_lt large n)
  rwa [ofDigits_digitsOf large] at less

theorem pow_length_digitsOf_le (large : 1 < base) {n : Nat} (positive : 0 < n) :
    base ^ (digitsOf base n).length ≤ base * n := by
  rw [digitsOf_eq large positive, List.length_reverse]
  exact Nat.base_pow_length_digits_le base n large positive.ne'

theorem length_digitsOf_le (large : 1 < base) {n length : Nat} (positive : 0 < length)
    (less : n < base ^ length) : (digitsOf base n).length ≤ length := by
  rcases Nat.eq_zero_or_pos n with rfl | nonzero
  · simp only [digitsOf, if_true, List.length_singleton]
    omega
  · rw [digitsOf_eq large nonzero, List.length_reverse]
    exact (Nat.digits_length_le_iff large n).mpr less

theorem head?_digitsOf_ne_zero (large : 1 < base) {n : Nat} (positive : 0 < n) :
    (digitsOf base n).head? ≠ some 0 := by
  have nonempty : Nat.digits base n ≠ [] := Nat.digits_ne_nil_iff_ne_zero.mpr positive.ne'
  rw [digitsOf_eq large positive, List.head?_reverse, List.getLast?_eq_some_getLast nonempty]
  exact fun zero => Nat.getLast_digit_ne_zero base positive.ne' (Option.some.inj zero)

theorem eq_zero_of_head?_digitsOf (large : 1 < base) {n : Nat}
    (leading : (digitsOf base n).head? = some 0) : digitsOf base n = [0] := by
  rcases Nat.eq_zero_or_pos n with rfl | positive
  · rfl
  · exact absurd leading (head?_digitsOf_ne_zero large positive)

/-- A factor that is a power of the base adds zeros. -/
theorem digitsOf_mul_pow (large : 1 < base) {n : Nat} (positive : 0 < n) (count : Nat) :
    digitsOf base (n * base ^ count) = digitsOf base n ++ List.replicate count 0 := by
  have scaled : 0 < n * base ^ count := Nat.mul_pos positive (Nat.pow_pos (by omega))
  rw [digitsOf_eq large scaled, digitsOf_eq large positive, Nat.mul_comm,
    Nat.digits_base_pow_mul large positive, List.reverse_append, List.reverse_replicate]

/-- Digits without zeros in front are those of their value. -/
theorem digitsOf_ofDigits (large : 1 < base) {digits : List Nat} (nonempty : digits ≠ [])
    (each : ∀ digit ∈ digits, digit < base) (leading : digits.head? ≠ some 0) :
    digitsOf base (ofDigits base digits) = digits := by
  have last (some : digits.reverse ≠ []) : digits.reverse.getLast some ≠ 0 := by
    rw [List.getLast_reverse]
    intro zero
    exact leading (by rw [List.head?_eq_some_head nonempty, zero])
  have read : Nat.digits base (ofDigits base digits) = digits.reverse := by
    rw [ofDigits_eq]
    exact Nat.digits_ofDigits base large _
      (fun digit isDigit => each digit (List.mem_reverse.mp isDigit)) last
  have positive : 0 < ofDigits base digits := by
    refine Nat.pos_of_ne_zero fun zero => nonempty ?_
    rw [zero, Nat.digits_zero] at read
    exact List.reverse_eq_nil_iff.mp read.symm
  rw [digitsOf_eq large positive, read, List.reverse_reverse]

theorem digitsOf_ofDigits_cons (large : 1 < base) {first : Nat} {rest : List Nat}
    (leading : first ≠ 0) (each : ∀ digit ∈ first :: rest, digit < base) :
    digitsOf base (ofDigits base (first :: rest)) = first :: rest :=
  digitsOf_ofDigits large (List.cons_ne_nil first rest) each fun zero =>
    leading (Option.some.inj zero)

/-- Digits without superfluous zeros are those of their value. -/
theorem eq_digitsOf (large : 1 < base) {digits : List Nat} (nonempty : digits ≠ [])
    (each : ∀ digit ∈ digits, digit < base) (leading : digits.head? = some 0 → digits = [0]) :
    digits = digitsOf base (ofDigits base digits) := by
  by_cases zero : digits.head? = some 0
  · rw [leading zero]
    simp [ofDigits, digitsOf]
  · exact (digitsOf_ofDigits large nonempty each zero).symm

/-- Digits of one number and one value are the same. -/
theorem eq_of_ofDigits_eq (large : 1 < base) {digits others : List Nat}
    (length : digits.length = others.length) (each : ∀ digit ∈ digits, digit < base)
    (eachOther : ∀ digit ∈ others, digit < base)
    (value : ofDigits base digits = ofDigits base others) : digits = others := by
  rw [ofDigits_eq, ofDigits_eq] at value
  apply List.reverse_injective
  refine Nat.ofDigits_inj_of_len_eq large (by rw [List.length_reverse, List.length_reverse, length])
    ?_ ?_ value
  · exact fun digit isDigit => each digit (List.mem_reverse.mp isDigit)
  · exact fun digit isDigit => eachOther digit (List.mem_reverse.mp isDigit)

/-- The digits of a natural are zero alone or start with another one. -/
theorem digitsOf_cases (large : 1 < base) (n : Nat) :
    digitsOf base n = [0] ∨ ∃ first rest, digitsOf base n = first :: rest ∧ first ≠ 0 ∧
      first < base ∧ ∀ digit ∈ rest, digit < base := by
  have each := digitsOf_lt large n
  cases digits : digitsOf base n with
  | nil => exact absurd digits (digitsOf_ne_nil large n)
  | cons first rest =>
    rw [digits] at each
    by_cases zero : first = 0
    · subst zero
      exact .inl (digits.symm.trans (eq_zero_of_head?_digitsOf large (by rw [digits]; rfl)))
    · obtain ⟨small, others⟩ := List.forall_mem_cons.mp each
      exact .inr ⟨first, rest, rfl, zero, small, others⟩

theorem toDigits_eq (n : Nat) : Nat.toDigits 10 n = (digitsOf 10 n).map (digitChar 10) := by
  have digit : ∀ digit < 10, Nat.digitChar digit = digitChar 10 digit := by decide
  induction n using Nat.strongRecOn with
  | ind n ih =>
    rw [Nat.toDigits_eq_if (by decide), digitsOf_eq_div (by decide)]
    split
    · next small =>
      rw [if_neg (by omega), Nat.mod_eq_of_lt small, digit n small]
      rfl
    · next large =>
      rw [if_pos (by omega), List.map_append, ih (n / 10) (by omega),
        digit _ (Nat.mod_lt n (by decide))]
      rfl

theorem toList_toString (n : Nat) : (toString n).toList = (digitsOf 10 n).map (digitChar 10) := by
  rw [Nat.toString_eq_repr, Nat.toList_repr, toDigits_eq]

theorem toString_subset (n : Nat) : (toString n).toList ⊆ "0123456789".toList := by
  have each : ∀ digit < 10, digitChar 10 digit ∈ "0123456789".toList := by decide
  intro c isDigit
  rw [toList_toString] at isDigit
  obtain ⟨digit, isMember, rfl⟩ := List.mem_map.mp isDigit
  exact each digit (digitsOf_lt (by decide) n digit isMember)

theorem ofDigits_cons (base digit : Nat) (digits : List Nat) :
    ofDigits base (digit :: digits) = digit * base ^ digits.length + ofDigits base digits := by
  have value := ofDigits_append base [digit] digits
  rwa [show ofDigits base [digit] = digit by simp [ofDigits], List.singleton_append] at value

theorem pow_le_ofDigits_cons (base : Nat) {digit : Nat} (positive : 0 < digit)
    (digits : List Nat) : base ^ digits.length ≤ ofDigits base (digit :: digits) := by
  rw [ofDigits_cons]
  exact Nat.le_add_right_of_le (Nat.le_mul_of_pos_left _ positive)

theorem le_foldl_digits (digits : List Nat) (start : Nat) :
    start ≤ digits.foldl (fun value digit => value * 10 + digit) start := by
  induction digits generalizing start with
  | nil => exact Nat.le_refl start
  | cons digit digits ih => exact Nat.le_trans (by omega) (ih (start * 10 + digit))

theorem ofDigits_dropZeros (base : Nat) (digits : List Nat) :
    ofDigits base (digits.dropWhile (· == 0)) = ofDigits base digits := by
  induction digits with
  | nil => rfl
  | cons digit digits ih =>
    cases digit with
    | zero =>
      rw [List.dropWhile_cons_of_pos (by rfl), ih]
      simp [ofDigits]
    | succ => rfl

/-! ## Reading digits -/

theorem digitValue?_digitChar : ∀ digit < 10, digitValue? 10 (digitChar 10 digit) = some digit := by
  decide

theorem takeDigits_of_stop {text : List Char}
    (stop : ∀ c ∈ text.head?, digitValue? 10 c = none) : takeDigits text = ([], text) := by
  cases text with
  | nil => rfl
  | cons c rest => simp [takeDigits, stop c (by simp)]

theorem takeDigits_append {digits : List Nat} (each : ∀ digit ∈ digits, digit < 10)
    {rest : List Char} (stop : ∀ c ∈ rest.head?, digitValue? 10 c = none) :
    takeDigits (digits.map (digitChar 10) ++ rest) = (digits, rest) := by
  induction digits with
  | nil => exact takeDigits_of_stop stop
  | cons digit digits ih =>
    have value := digitValue?_digitChar digit (each digit (List.mem_cons_self ..))
    have following := ih fun other isDigit => each other (List.mem_cons_of_mem _ isDigit)
    simp only [List.map_cons, List.cons_append, takeDigits, value, following]

theorem takeDigits_toString (n : Nat) : (takeDigits (toString n).toList).1 = digitsOf 10 n := by
  have ended : ∀ c ∈ [].head?, digitValue? 10 c = none := by simp
  have taken := takeDigits_append (digitsOf_lt (show 1 < 10 by decide) n) ended
  rw [List.append_nil] at taken
  rw [toList_toString, taken]

/-- Different naturals have different numerals. -/
theorem toString_injective : Function.Injective (toString : Nat → String) := by
  intro first second same
  have digits := takeDigits_toString first
  rw [same, takeDigits_toString] at digits
  rw [← ofDigits_digitsOf (show 1 < 10 by decide) first, ← digits, ofDigits_digitsOf (by decide)]

end ScriptCore
