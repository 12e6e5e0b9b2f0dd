import ScriptCore.Proofs.Number.Arithmetic
import ScriptCore.Proofs.Number.Digits
import ScriptCore.Proofs.Number.Radix.Loop

/-! # Fraction digits in a radix

After some places the rest of a fraction `F / U` is `F * radix ^ places % U` and its margin is
`M * radix ^ places`, as long as both are exact. What a step does with them is said once; the digits
then end where the rest, or what it lacks to one in the last place, is less than the margin.
-/

namespace ScriptCore

open Magnitude (IsExact unitsPerOne)

theorem ofDigits_reverse_cons (base digit : Nat) (digits : List Nat) :
    ofDigits base (digit :: digits).reverse = ofDigits base digits.reverse * base + digit := by
  rw [List.reverse_cons, ofDigits_append]
  simp [ofDigits]

namespace Double

theorem half_eq_ofUnits : half = ofUnits (2 ^ 1073) := by
  decide +kernel

end Double

namespace Numeral

/-- The numerator of the digits of a fraction, given last first, with the carry that left them. -/
def carriedValue (radix : Nat) (result : List Nat × Bool) : Nat :=
  result.2.toNat * radix ^ result.1.length + ofDigits radix result.1.reverse

theorem carriedValue_false (radix : Nat) (digits : List Nat) :
    carriedValue radix (digits, false) = ofDigits radix digits.reverse := by
  simp [carriedValue]

variable {radix : Nat}

/-- A carry adds one in the last place. -/
theorem carriedValue_roundUp {digits : List Nat} (each : ∀ digit ∈ digits, digit < radix) :
    carriedValue radix (roundUp radix digits) * radix ^ digits.length =
      (ofDigits radix digits.reverse + 1) * radix ^ (roundUp radix digits).1.length := by
  induction digits with
  | nil => rfl
  | cons digit earlier ih =>
    have last := each digit (List.mem_cons_self ..)
    have before := ih fun other isDigit => each other (List.mem_cons_of_mem _ isDigit)
    rw [ofDigits_reverse_cons]
    by_cases within : digit + 1 < radix
    · rw [roundUp_cons, if_pos within, carriedValue, ofDigits_reverse_cons]
      simp [Nat.add_assoc]
    · have full : radix = digit + 1 := by omega
      rw [roundUp_cons, if_neg within, List.length_cons, Nat.pow_succ, ← Nat.mul_assoc, before,
        full]
      ring

theorem roundUp_lt {digits : List Nat} (each : ∀ digit ∈ digits, digit < radix) :
    ∀ digit ∈ (roundUp radix digits).1, digit < radix := by
  induction digits with
  | nil => exact each
  | cons digit earlier ih =>
    have before := fun other isDigit => each other (List.mem_cons_of_mem digit isDigit)
    rw [roundUp_cons]
    split
    · next within => exact List.forall_mem_cons.mpr ⟨within, before⟩
    · exact ih before

theorem half_le_of_rounds {rest digit : Nat} (exact : IsExact rest)
    (rounds : (Double.half.less (.ofUnits rest) ||
      ((Double.ofUnits rest).equals Double.half && digit % 2 == 1)) = true) :
    unitsPerOne ≤ 2 * rest := by
  have halfExact : IsExact (2 ^ 1073) :=
    .two_pow (pow_lt_pow_right₀ one_lt_two (by decide))
  have double : unitsPerOne = 2 * 2 ^ 1073 := by rw [Magnitude.unitsPerOne_eq, ← pow_succ']
  rw [Double.half_eq_ofUnits, Bool.or_eq_true, Bool.and_eq_true,
    Double.ofUnits_less halfExact exact, Double.ofUnits_equals exact halfExact] at rounds
  omega

theorem one_lt_of_less {rest margin : Nat} (start : IsExact rest) (grown : IsExact margin)
    (less : (1 : Double).less (.ofUnits rest + .ofUnits margin) = true) :
    unitsPerOne < rest + margin := by
  rw [Double.ofUnits_add start grown, Double.ofNat_one] at less
  have greater := Double.lt_of_ofUnits_less .one Nat.one_pos less
  rwa [Nat.one_mul] at greater

variable {fraction margin : Nat}

/-- What a fraction that is less than one comes to in a round, and its margin. -/
theorem isExact_roundedUnits_mul (small : radix ≤ 36) (proper : fraction ≤ unitsPerOne) :
    IsExact (Double.roundedUnits (fraction * radix)) ∧
      Double.roundedUnits (fraction * radix) ≤ radix * unitsPerOne := by
  have bound : IsExact (radix * unitsPerOne) := .ones (by omega)
  apply bound.nearest_le Nat.one_pos
  rw [Nat.one_mul, Nat.mul_comm]
  exact Nat.mul_le_mul_left radix proper

/-- The three things that a round can do with a fraction and a margin, which are scaled and rounded:
it carries into the digits, or ends with the new one, or goes on with a rest that is not less than
the margin. -/
theorem fractionRound_cases (digits : List Nat) (small : radix ≤ 36)
    (proper : fraction < unitsPerOne) (ordered : margin ≤ fraction)
    (start : IsExact fraction) (grown : IsExact margin) :
    let shifted := Double.roundedUnits (fraction * radix)
    let widened := Double.roundedUnits (margin * radix)
    let next := shifted / unitsPerOne :: digits
    let round := fractionRound radix (.ofUnits fraction, .ofUnits margin, digits)
    (unitsPerOne ≤ 2 * (shifted % unitsPerOne) ∧ unitsPerOne < shifted % unitsPerOne + widened ∧
        round = .inl (roundUp radix next)) ∨
      (shifted % unitsPerOne < widened ∧ round = .inl (next, false)) ∨
      (widened ≤ shifted % unitsPerOne ∧
        round = .inr (.ofUnits (shifted % unitsPerOne), .ofUnits widened, next)) := by
  intro shifted widened next round
  have short : radix ≤ 2 ^ 53 := by omega
  obtain ⟨exact, bounded⟩ := isExact_roundedUnits_mul small proper.le
  obtain ⟨wide, -⟩ := isExact_roundedUnits_mul small (ordered.trans proper.le)
  have isShifted : Double.ofUnits fraction * .ofNat radix = .ofUnits shifted := by
    rw [Double.ofUnits_mul_ofNat start short, Double.ofUnits_roundedUnits]
  have isWidened : Double.ofUnits margin * .ofNat radix = .ofUnits widened := by
    rw [Double.ofUnits_mul_ofNat grown short, Double.ofUnits_roundedUnits]
  have digitSmall : shifted / unitsPerOne ≤ 2 ^ 53 :=
    (Nat.div_le_of_le_mul (Nat.mul_comm radix _ ▸ bounded)).trans short
  have left := exact.fraction
  have computed : round = _ := fractionRound.eq_1 ..
  rw [isShifted, isWidened, Double.wholeNat_ofUnits exact,
    Double.ofUnits_sub_whole exact digitSmall] at computed
  split at computed
  · next rounds =>
    rw [Bool.and_eq_true] at rounds
    exact .inl ⟨half_le_of_rounds left rounds.1, one_lt_of_less left wide rounds.2, computed⟩
  · split at computed
    · next ended =>
      exact .inr (.inl ⟨(Double.ofUnits_less left wide).mp ended, computed⟩)
    · next goesOn =>
      refine .inr (.inr ⟨Nat.le_of_not_lt fun less => goesOn ?_, computed⟩)
      exact (Double.ofUnits_less left wide).mpr less

/-- The same for a fraction that is exact when scaled, and a margin that is unless it exceeds one. -/
theorem fractionDigits_step (fuel : Nat) (digits : List Nat) (small : radix ≤ 36)
    (proper : fraction < unitsPerOne) (ordered : margin ≤ fraction) (start : IsExact fraction)
    (grown : IsExact margin) (shifted : IsExact (fraction * radix))
    (widened : unitsPerOne ≤ margin * radix ∨ IsExact (margin * radix)) :
    let next := fraction * radix / unitsPerOne :: digits
    let result := fractionDigits radix (fuel + 1) (.ofUnits fraction) (.ofUnits margin) digits
    (unitsPerOne ≤ 2 * (fraction * radix % unitsPerOne) ∧
        unitsPerOne < fraction * radix % unitsPerOne + margin * radix ∧
        result = roundUp radix next) ∨
      (fraction * radix % unitsPerOne < margin * radix ∧ result = (next, false)) ∨
      (margin * radix ≤ fraction * radix % unitsPerOne ∧
        result = fractionDigits radix fuel (.ofUnits (fraction * radix % unitsPerOne))
          (.ofUnits (margin * radix)) next) := by
  intro next result
  have bound := Nat.mod_lt (fraction * radix) Magnitude.unitsPerOne_pos
  have computed : result = _ :=
    fractionDigits_succ radix fuel (.ofUnits fraction, .ofUnits margin, digits)
  have round := fractionRound_cases digits small proper ordered start grown
  rw [Double.roundedUnits_eq shifted] at round
  dsimp only at round
  -- A margin beyond one stays so when it is rounded, and then this round is the last.
  have same : Double.roundedUnits (margin * radix) = margin * radix ∨
      unitsPerOne ≤ margin * radix ∧ unitsPerOne ≤ Double.roundedUnits (margin * radix) := by
    rcases widened with wide | exact
    · exact .inr ⟨wide, IsExact.one.le_nearest Nat.one_pos (by rwa [Nat.one_mul])⟩
    · exact .inl (Double.roundedUnits_eq exact)
  obtain ⟨half, near, isRound⟩ | ⟨near, isRound⟩ | ⟨goesOn, isRound⟩ := round
  · rw [isRound] at computed
    have one := Magnitude.unitsPerOne_pos
    exact .inl ⟨half, by omega, computed⟩
  · rw [isRound] at computed
    exact .inr (.inl ⟨by omega, computed⟩)
  · rw [isRound] at computed
    have exact := same.resolve_right (by omega)
    rw [exact] at computed goesOn
    exact .inr (.inr ⟨goesOn, computed⟩)

/-- The rest of a fraction and its margin are exact after any number of places. -/
structure RunsExactly (radix fraction margin : Nat) : Prop where
  rest : ∀ places, IsExact (fraction * radix ^ places % unitsPerOne)
  shifted : ∀ places, IsExact (fraction * radix ^ places % unitsPerOne * radix)
  margin : ∀ places, margin * radix ^ places < unitsPerOne → IsExact (margin * radix ^ places)

theorem RunsExactly.of_two_pow {bits exponent : Nat} (small : 2 ^ bits ≤ 36)
    (exact : IsExact fraction) : RunsExactly (2 ^ bits) fraction (2 ^ exponent) := by
  have rest (places : Nat) : IsExact (fraction * (2 ^ bits) ^ places % unitsPerOne) := by
    rw [← Nat.pow_mul, Magnitude.unitsPerOne_eq]
    exact exact.mul_mod_two_pow (bits * places) (by decide)
  constructor
  · exact rest
  · intro places
    refine (rest places).mul_two_pow bits ?_
    calc fraction * (2 ^ bits) ^ places % unitsPerOne * 2 ^ bits
        ≤ unitsPerOne * 36 :=
          Nat.mul_le_mul (Nat.mod_lt _ Magnitude.unitsPerOne_pos).le small
      _ = 36 * unitsPerOne := Nat.mul_comm ..
      _ < 2 ^ 2098 := Magnitude.mul_unitsPerOne_lt (by decide)
  · intro places proper
    rw [← Nat.pow_mul, ← pow_add] at proper ⊢
    exact .two_pow (proper.trans IsExact.one.lt)

/-- A fraction of few binary places and a margin of at least `2 ^ -53`. With `factor` the odd part
of the radix, the products of its digits have at most 53 bits. -/
theorem RunsExactly.of_grid {factor bits places grid : Nat} (small : factor * 2 ^ bits ≤ 36)
    (room : factor * 2 ^ places ≤ 2 ^ 53) (factored : 0 < factor) (split : places + grid = 1074)
    (aligned : 2 ^ grid ∣ fraction) (wide : 2 ^ 1021 ∣ margin) :
    RunsExactly (factor * 2 ^ bits) fraction margin := by
  have one : unitsPerOne = 2 ^ places * 2 ^ grid := by
    rw [Magnitude.unitsPerOne_eq, ← split, pow_add]
  have onGrid (count : Nat) : 2 ^ grid ∣ fraction * (factor * 2 ^ bits) ^ count % unitsPerOne :=
    (Nat.dvd_mod_iff (one ▸ Nat.dvd_mul_left ..)).mpr (aligned.mul_right _)
  have proper (count : Nat) := Nat.mod_lt (fraction * (factor * 2 ^ bits) ^ count)
    Magnitude.unitsPerOne_pos
  have finite : unitsPerOne * 36 < 2 ^ 2098 := by
    rw [Nat.mul_comm]
    exact Magnitude.mul_unitsPerOne_lt (by decide)
  constructor
  · intro count
    refine .of_dvd (onGrid count) ((proper count).trans_le ?_) (by have := proper count; omega)
    rw [one, pow_add]
    apply Nat.mul_le_mul_right
    exact (Nat.le_mul_of_pos_left _ factored).trans room
  · intro count
    have scaled := Nat.mul_lt_mul_of_pos_right (proper count)
      (Nat.mul_pos factored (Nat.two_pow_pos bits))
    have aligned : 2 ^ (grid + bits) ∣
        fraction * (factor * 2 ^ bits) ^ count % unitsPerOne * (factor * 2 ^ bits) := by
      rw [pow_add]
      exact Nat.mul_dvd_mul (onGrid count) (Nat.dvd_mul_left ..)
    refine .of_dvd aligned (scaled.trans_le ?_) (scaled.trans_le ?_)
    · calc unitsPerOne * (factor * 2 ^ bits) = factor * 2 ^ places * (2 ^ grid * 2 ^ bits) := by
            rw [one]; ring
        _ ≤ 2 ^ 53 * (2 ^ grid * 2 ^ bits) := Nat.mul_le_mul_right _ room
        _ = 2 ^ (53 + (grid + bits)) := by rw [pow_add, pow_add]
    · exact (Nat.mul_le_mul_left _ small).trans finite.le
  · intro count less
    refine .of_dvd (wide.mul_right _) (less.trans_le ?_) (less.trans IsExact.one.lt)
    rw [Magnitude.unitsPerOne_eq]

/-- Where the digits of a fraction end, and with which value: that of the fraction cut off where the
rest is less than the margin, or raised where what lacks to one is. -/
inductive Ends (radix fraction margin : Nat) (result : List Nat × Bool) : Prop
  | cut
      (value : carriedValue radix result =
        fraction * radix ^ result.1.length / unitsPerOne)
      (near : fraction * radix ^ result.1.length % unitsPerOne <
        margin * radix ^ result.1.length)
  | raised (places : Nat)
      (value : carriedValue radix result * radix ^ places =
        (fraction * radix ^ places / unitsPerOne + 1) * radix ^ result.1.length)
      (half : unitsPerOne ≤ 2 * (fraction * radix ^ places % unitsPerOne))
      (near : unitsPerOne < fraction * radix ^ places % unitsPerOne + margin * radix ^ places)

/-- One more place takes the next digit out of the rest. -/
theorem scaled_succ (radix fraction places : Nat) :
    fraction * radix ^ (places + 1) % unitsPerOne =
        fraction * radix ^ places % unitsPerOne * radix % unitsPerOne ∧
      fraction * radix ^ (places + 1) / unitsPerOne =
        fraction * radix ^ places / unitsPerOne * radix +
          fraction * radix ^ places % unitsPerOne * radix / unitsPerOne := by
  rw [Nat.pow_succ, ← Nat.mul_assoc, Nat.mod_mul_mod]
  have split := Nat.div_add_mod (fraction * radix ^ places) unitsPerOne
  refine ⟨rfl, ?_⟩
  rw [← Nat.mul_add_div Magnitude.unitsPerOne_pos, ← Nat.mul_assoc, ← Nat.add_mul, split]

theorem fractionDigits_ends (large : 1 < radix) (small : radix ≤ 36)
    (exactly : RunsExactly radix fraction margin) {fuel places : Nat} {digits : List Nat}
    (length : digits.length = places) (each : ∀ digit ∈ digits, digit < radix)
    (value : ofDigits radix digits.reverse = fraction * radix ^ places / unitsPerOne)
    (started : margin * radix ^ places ≤ fraction * radix ^ places % unitsPerOne)
    (enough : unitsPerOne ≤ margin * radix ^ (places + fuel)) :
    let result := fractionDigits radix fuel (.ofUnits (fraction * radix ^ places % unitsPerOne))
      (.ofUnits (margin * radix ^ places)) digits
    Ends radix fraction margin result ∧ ∀ digit ∈ result.1, digit < radix := by
  induction fuel generalizing digits places with
  | zero =>
    have proper := Nat.mod_lt (fraction * radix ^ places) Magnitude.unitsPerOne_pos
    rw [Nat.add_zero] at enough
    omega
  | succ fuel ih =>
    have proper := Nat.mod_lt (fraction * radix ^ places) Magnitude.unitsPerOne_pos
    obtain ⟨rest, quotient⟩ := scaled_succ radix fraction places
    have wide : margin * radix ^ (places + 1) = margin * radix ^ places * radix := by
      rw [Nat.pow_succ, Nat.mul_assoc]
    have widened := (Nat.lt_or_ge _ _).symm.imp_right (exactly.margin (places + 1))
    have step := fractionDigits_step fuel digits small proper started (exactly.rest places)
      (exactly.margin places (by omega)) (exactly.shifted places) (wide ▸ widened)
    have isDigit : fraction * radix ^ places % unitsPerOne * radix / unitsPerOne < radix :=
      Nat.div_lt_of_lt_mul (Nat.mul_lt_mul_of_pos_right proper (by omega))
    rw [← rest, ← wide] at step
    generalize fraction * radix ^ places % unitsPerOne * radix / unitsPerOne = digit at *
    have longer : (digit :: digits).length = places + 1 := by rw [List.length_cons, length]
    have eachNext : ∀ other ∈ digit :: digits, other < radix :=
      List.forall_mem_cons.mpr ⟨isDigit, each⟩
    have nextValue : ofDigits radix (digit :: digits).reverse =
        fraction * radix ^ (places + 1) / unitsPerOne := by
      rw [ofDigits_reverse_cons, value, quotient]
    dsimp only at step ⊢
    obtain ⟨half, near, rounded⟩ | ⟨near, ended⟩ | ⟨goesOn, continued⟩ := step
    · have added := carriedValue_roundUp eachNext
      rw [longer, nextValue] at added
      rw [rounded]
      exact ⟨.raised _ added half near, roundUp_lt eachNext⟩
    · rw [ended]
      refine ⟨.cut ?_ ?_, eachNext⟩
      · rw [carriedValue_false, nextValue, longer]
      · rwa [longer]
    · rw [continued]
      have remaining : places + 1 + fuel = places + (fuel + 1) := by omega
      exact ih longer eachNext nextValue goesOn (remaining ▸ enough)

/-- The digits of a fraction that is not less than its margin end, given enough fuel. -/
theorem fractionDigits_ends_of_le (large : 1 < radix) (small : radix ≤ 36)
    (exactly : RunsExactly radix fraction margin) (proper : fraction < unitsPerOne)
    (started : margin ≤ fraction) {fuel : Nat} (enough : unitsPerOne ≤ margin * radix ^ fuel) :
    let result := fractionDigits radix fuel (.ofUnits fraction) (.ofUnits margin) []
    Ends radix fraction margin result ∧ ∀ digit ∈ result.1, digit < radix := by
  have unscaled : fraction * radix ^ 0 % unitsPerOne = fraction := by
    rw [Nat.pow_zero, Nat.mul_one, Nat.mod_eq_of_lt proper]
  have unscaledMargin : margin * radix ^ 0 = margin := by
    rw [Nat.pow_zero, Nat.mul_one]
  have value : ofDigits radix [] = fraction * radix ^ 0 / unitsPerOne := by
    rw [Nat.pow_zero, Nat.mul_one, Nat.div_eq_of_lt proper]
    rfl
  have run := fractionDigits_ends large small exactly List.length_nil (List.forall_mem_nil _) value
    (unscaled.symm ▸ unscaledMargin.symm ▸ started) ((Nat.zero_add fuel).symm ▸ enough)
  rwa [unscaled, unscaledMargin] at run

/-! ## The value of the digits -/

variable {result : List Nat × Bool}

/-- The digits of a fraction are less than its margin away from it. -/
theorem Ends.near (positive : 0 < radix) (nonzero : 0 < margin)
    (ends : Ends radix fraction margin result) :
    carriedValue radix result * unitsPerOne < (fraction + margin) * radix ^ result.1.length ∧
      fraction * radix ^ result.1.length <
        carriedValue radix result * unitsPerOne + margin * radix ^ result.1.length := by
  rw [Nat.add_mul]
  have grown : 0 < margin * radix ^ result.1.length := Nat.mul_pos nonzero (Nat.pow_pos positive)
  cases ends with
  | cut value near =>
    have split := Nat.div_add_mod' (fraction * radix ^ result.1.length) unitsPerOne
    rw [← value] at split
    omega
  | raised places value half near =>
    have split := Nat.div_add_mod' (fraction * radix ^ places) unitsPerOne
    have proper := Nat.mod_lt (fraction * radix ^ places) Magnitude.unitsPerOne_pos
    generalize fraction * radix ^ places / unitsPerOne = quotient at *
    generalize fraction * radix ^ places % unitsPerOne = rest at *
    have scaled : 0 < radix ^ result.1.length := Nat.pow_pos positive
    generalize radix ^ result.1.length = scale at *
    -- Compared where the carry was made, after `places` digits.
    have raisedValue : carriedValue radix result * unitsPerOne * radix ^ places =
        (quotient * unitsPerOne + unitsPerOne) * scale := by
      rw [Nat.mul_right_comm, value]
      ring
    constructor
    · apply Nat.lt_of_mul_lt_mul_right (a := radix ^ places)
      calc carriedValue radix result * unitsPerOne * radix ^ places
          = (quotient * unitsPerOne + unitsPerOne) * scale := raisedValue
        _ < (fraction * radix ^ places + margin * radix ^ places) * scale :=
          Nat.mul_lt_mul_of_pos_right (by omega) scaled
        _ = (fraction * scale + margin * scale) * radix ^ places := by ring
    · apply Nat.lt_of_mul_lt_mul_right (a := radix ^ places)
      calc fraction * scale * radix ^ places
          = (quotient * unitsPerOne + rest) * scale := by rw [split]; ring
        _ < (quotient * unitsPerOne + unitsPerOne) * scale :=
          Nat.mul_lt_mul_of_pos_right (by omega) scaled
        _ = carriedValue radix result * unitsPerOne * radix ^ places := raisedValue.symm
        _ ≤ (carriedValue radix result * unitsPerOne + margin * scale) * radix ^ places :=
          Nat.mul_le_mul_right _ (Nat.le_add_right ..)

/-- In a binary radix rest and margin are multiples of the lesser of the margin and one. -/
theorem rest_of_two_pow {bits exponent : Nat} (aligned : 2 ^ exponent ∣ fraction) (places : Nat) :
    2 ^ exponent * (2 ^ bits) ^ places ∣ unitsPerOne ∧
        2 ^ exponent * (2 ^ bits) ^ places ∣ fraction * (2 ^ bits) ^ places % unitsPerOne ∨
      fraction * (2 ^ bits) ^ places % unitsPerOne = 0 := by
  have scaled : 2 ^ exponent * (2 ^ bits) ^ places ∣ fraction * (2 ^ bits) ^ places :=
    Nat.mul_dvd_mul_right aligned _
  have power : 2 ^ exponent * (2 ^ bits) ^ places = 2 ^ (exponent + bits * places) := by
    rw [← Nat.pow_mul, ← Nat.pow_add]
  rcases Nat.le_total (exponent + bits * places) 1074 with within | beyond
  · have divides : 2 ^ exponent * (2 ^ bits) ^ places ∣ unitsPerOne := by
      rw [power, Magnitude.unitsPerOne_eq]
      exact pow_dvd_pow 2 within
    exact .inl ⟨divides, (Nat.dvd_mod_iff divides).mpr scaled⟩
  · have divides : unitsPerOne ∣ 2 ^ exponent * (2 ^ bits) ^ places := by
      rw [power, Magnitude.unitsPerOne_eq]
      exact pow_dvd_pow 2 beyond
    exact .inr (Nat.mod_eq_zero_of_dvd (divides.trans scaled))

/-- In a binary radix the digits of a fraction are its value. -/
theorem Ends.exact {bits exponent : Nat} (aligned : 2 ^ exponent ∣ fraction)
    (ends : Ends (2 ^ bits) fraction (2 ^ exponent) result) :
    carriedValue (2 ^ bits) result * unitsPerOne = fraction * (2 ^ bits) ^ result.1.length := by
  cases ends with
  | cut value near =>
    have split := Nat.div_add_mod' (fraction * (2 ^ bits) ^ result.1.length) unitsPerOne
    have none : fraction * (2 ^ bits) ^ result.1.length % unitsPerOne = 0 := by
      rcases rest_of_two_pow aligned result.1.length with ⟨-, divides⟩ | none
      · exact Nat.eq_zero_of_dvd_of_lt divides near
      · exact none
    rw [value]
    omega
  | raised places value half near =>
    have proper := Nat.mod_lt (fraction * (2 ^ bits) ^ places) Magnitude.unitsPerOne_pos
    rcases rest_of_two_pow aligned places with ⟨one, rest⟩ | none
    · have lacking : unitsPerOne - fraction * (2 ^ bits) ^ places % unitsPerOne = 0 :=
        Nat.eq_zero_of_dvd_of_lt (Nat.dvd_sub one rest) (by omega)
      omega
    · rw [none] at half
      omega

end Numeral

end ScriptCore
