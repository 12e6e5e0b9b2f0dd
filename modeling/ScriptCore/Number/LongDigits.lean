import ScriptCore.Number.Numeral

/-! # Long lists of digits

Taking digits in one by one costs time in the square of their number. Joined two by two they become
half as many digits of the squared base, until one is left; `ofLongDigits_eq` says that this is the
value that they have in `ofDigits`.
-/

namespace ScriptCore

/-- Joins digits two by two into digits of the squared base. A last one without a partner stays. -/
def joinPairs (base : Nat) : List Nat → List Nat
  | high :: low :: rest => (high * base + low) :: joinPairs base rest
  | rest => rest

/-- The digits, after a leading zero if their number is odd. -/
def evenDigits (digits : List Nat) : List Nat :=
  if digits.length % 2 = 0 then digits else 0 :: digits

/-- The value of digits, joined in the given number of rounds at most. -/
def ofJoinedDigits : Nat → Nat → List Nat → Nat
  | _, _, [] => 0
  | _, _, [digit] => digit
  | 0, base, digits => ofDigits base digits
  | rounds + 1, base, digits =>
    ofJoinedDigits rounds (base * base) (joinPairs base (evenDigits digits))

/-- The natural that a list of digits denotes, of whatever length. -/
def ofLongDigits (base : Nat) (digits : List Nat) : Nat :=
  ofJoinedDigits (digits.length.log2 + 1) base digits

theorem foldl_joinPairs (base : Nat) (digits : List Nat) (value : Nat)
    (even : digits.length % 2 = 0) :
    (joinPairs base digits).foldl (fun value digit => value * (base * base) + digit) value =
      digits.foldl (fun value digit => value * base + digit) value := by
  fun_induction joinPairs base digits generalizing value with
  | case1 high low rest ih =>
    have assembled :
        value * (base * base) + (high * base + low) = (value * base + high) * base + low := by
      rw [Nat.add_mul, Nat.mul_assoc, Nat.add_assoc]
    rw [List.foldl_cons, List.foldl_cons, List.foldl_cons, assembled]
    exact ih _ (by simp only [List.length_cons] at even; omega)
  | case2 rest unpaired =>
    match rest, unpaired, even with
    | [], _, _ => rfl
    | [_], _, even => simp at even
    | high :: low :: rest, unpaired, _ => exact absurd rfl (unpaired high low rest)

theorem length_evenDigits (digits : List Nat) : (evenDigits digits).length % 2 = 0 := by
  rw [evenDigits]
  split
  · assumption
  · rw [List.length_cons]; omega

theorem ofDigits_evenDigits (base : Nat) (digits : List Nat) :
    ofDigits base (evenDigits digits) = ofDigits base digits := by
  rw [evenDigits]
  split
  · rfl
  · rw [ofDigits, ofDigits, List.foldl_cons, Nat.zero_mul]

theorem ofJoinedDigits_eq (rounds base : Nat) (digits : List Nat) :
    ofJoinedDigits rounds base digits = ofDigits base digits := by
  fun_induction ofJoinedDigits rounds base digits with
  | case1 => rfl
  | case2 => simp [ofDigits]
  | case3 => rfl
  | case4 rounds base digits _ _ ih =>
    rw [ih, ← ofDigits_evenDigits base digits]
    exact foldl_joinPairs base (evenDigits digits) 0 (length_evenDigits digits)

@[simp] theorem ofLongDigits_eq (base : Nat) (digits : List Nat) :
    ofLongDigits base digits = ofDigits base digits :=
  ofJoinedDigits_eq _ base digits

end ScriptCore
