import ScriptCore.Proofs.Number.Arithmetic
import ScriptCore.Proofs.Number.Digits
import ScriptCore.Proofs.Number.Radix.Loop

/-! # Whole digits in a radix

Repeated division of doubles gives the digits of a natural as long as every quotient is exact. It is
up to `2^53` in any radix, and without a bound in a binary one: there the digits that are dropped
first, because they lie beyond the precision of a double, are zeros.
-/

namespace ScriptCore

open Magnitude (IsExact unitsPerOne)

namespace Numeral

/-- Every quotient of a natural by powers of a radix is exact, and so is its next multiple. -/
structure DividesExactly (radix n : Nat) : Prop where
  quotient : ∀ places, IsExact (n / radix ^ places * unitsPerOne)
  multiple : ∀ places, IsExact (n / radix ^ (places + 1) * radix * unitsPerOne)

variable {radix n : Nat}

theorem DividesExactly.div (exactly : DividesExactly radix n) :
    DividesExactly radix (n / radix) := by
  have shift (places : Nat) : n / radix / radix ^ places = n / radix ^ (places + 1) := by
    rw [Nat.div_div_eq_div_mul, Nat.pow_succ']
  constructor
  · intro places
    rw [shift]
    exact exactly.quotient (places + 1)
  · intro places
    rw [shift]
    exact exactly.multiple (places + 1)

/-- One division splits the last digit off. -/
theorem DividesExactly.step (exactly : DividesExactly radix n) (positive : 0 < radix)
    (small : radix ≤ 36) :
    let digit := Double.ofUnits (n * unitsPerOne) % Double.ofNat radix
    digit = .ofUnits (n % radix * unitsPerOne) ∧
      (Double.ofUnits (n * unitsPerOne) - digit) / Double.ofNat radix =
        .ofUnits (n / radix * unitsPerOne) := by
  intro digit
  have whole : IsExact (n * unitsPerOne) := by simpa using exactly.quotient 0
  have multiple : IsExact (n / radix * radix * unitsPerOne) := by simpa using exactly.multiple 0
  have base : IsExact (radix * unitsPerOne) := .ones (by omega)
  have bound := Nat.mod_lt n positive
  have last : IsExact (n % radix * unitsPerOne) := .ones (by omega)
  have divides : 0 < radix * unitsPerOne := Nat.mul_pos positive Magnitude.unitsPerOne_pos
  have digitEq : digit = .ofUnits (n % radix * unitsPerOne) := by
    rw [← Nat.mul_mod_mul_right]
    exact Double.ofUnits_rem whole base divides
  have difference :
      n * unitsPerOne - n % radix * unitsPerOne = n / radix * radix * unitsPerOne := by
    rw [← Nat.sub_mul, Nat.sub_eq_of_eq_add (Nat.div_add_mod' n radix).symm]
  refine ⟨digitEq, ?_⟩
  rw [digitEq, Double.ofUnits_sub whole last (Nat.mul_le_mul_right _ (Nat.mod_le ..)), difference,
    Double.ofNat_eq_ofUnits, Double.ofUnits_div multiple base divides,
    Double.nearest_of_dvd divides, Double.ofUnits]
  ring

theorem less_whole_iff (exact : IsExact (n * unitsPerOne)) :
    (0 : Double).less (.ofUnits (n * unitsPerOne)) = true ↔ 0 < n := by
  rw [Double.ofNat_literal, Double.ofUnits_less (.ones (Nat.zero_le _)) exact,
    Nat.mul_lt_mul_right Magnitude.unitsPerOne_pos]

theorem wholeRound_eq (positive : 0 < radix) (small : radix ≤ 36)
    (exactly : DividesExactly radix n) (later : List Nat) :
    wholeRound radix (.ofUnits (n * unitsPerOne), later) =
      if 0 < n / radix then .inr (.ofUnits (n / radix * unitsPerOne), n % radix :: later)
      else .inl (n % radix :: later) := by
  obtain ⟨digit, rest⟩ := exactly.step positive small
  have bound := Nat.mod_lt n positive
  have digitExact : IsExact (n % radix * unitsPerOne) := .ones (by omega)
  have more := less_whole_iff (n := n / radix) (by simpa using exactly.quotient 1)
  rw [wholeRound, rest, digit, Double.wholeNat_ofUnits digitExact,
    Nat.mul_div_cancel _ Magnitude.unitsPerOne_pos]
  exact if_congr more rfl rfl

/-- Repeated division comes to an end, with the digits of a natural. -/
theorem wholeLoop_ends (large : 1 < radix) (small : radix ≤ 36) (exactly : DividesExactly radix n)
    {room : Nat} (enough : n < radix ^ (room + 1)) (later : List Nat) :
    ∃ rounds ≤ room + 1, LoopEnds (wholeRound radix) rounds (.ofUnits (n * unitsPerOne), later)
      (digitsOf radix n ++ later) := by
  have positive : 0 < radix := by omega
  rw [digitsOf_eq_div large]
  induction room generalizing n later with
  | zero =>
    have last : ¬ 0 < n / radix := by
      rw [Nat.zero_add, Nat.pow_one] at enough
      rw [Nat.div_eq_of_lt enough]
      exact Nat.lt_irrefl 0
    refine ⟨1, Nat.le_refl 1, .last ?_⟩
    rw [wholeRound_eq positive small exactly, if_neg last, if_neg last]
    rfl
  | succ room ih =>
    have round := wholeRound_eq positive small exactly later
    split
    · next more =>
      have fewer : n / radix < radix ^ (room + 1) := Nat.div_lt_of_lt_mul (Nat.pow_succ' ▸ enough)
      obtain ⟨rounds, within, ends⟩ := ih exactly.div fewer (n % radix :: later)
      rw [if_pos more] at round
      rw [← digitsOf_eq_div large] at ends
      rw [List.append_assoc]
      exact ⟨rounds + 1, Nat.add_le_add_right within 1, .next round ends⟩
    · next last =>
      rw [if_neg last] at round
      exact ⟨1, Nat.le_add_left .., .last round⟩

theorem wholeDigits_eq (large : 1 < radix) (small : radix ≤ 36) (exactly : DividesExactly radix n)
    {fuel : Nat} (enough : n < radix ^ (fuel + 1)) (later : List Nat) :
    wholeDigits (.ofNat radix) (fuel + 1) (.ofUnits (n * unitsPerOne)) later =
      digitsOf radix n ++ later := by
  obtain ⟨rounds, within, ends⟩ := wholeLoop_ends large small exactly enough later
  exact ends.wholeDigits_eq within

/-! ## Digits beyond the precision -/

theorem exactIntegerLimit_eq :
    Double.exactIntegerLimit = .ofUnits (2 ^ 53 * unitsPerOne) := by
  decide +kernel

/-- Up to `2^53` no digit is dropped. -/
theorem dropInexact_of_le (large : 1 < radix) (small : radix ≤ 36) (bounded : n ≤ 2 ^ 53)
    (fuel count : Nat) :
    dropInexact (.ofNat radix) fuel (.ofUnits (n * unitsPerOne)) count =
      (.ofUnits (n * unitsPerOne), count) := by
  cases fuel with
  | zero => rfl
  | succ fuel =>
    have divides : 0 < radix * unitsPerOne :=
      Nat.mul_pos (by omega) Magnitude.unitsPerOne_pos
    have quotient : n * unitsPerOne * unitsPerOne ≤
        radix * unitsPerOne * (2 ^ 52 * unitsPerOne) := by
      rw [← Nat.mul_assoc, Nat.mul_right_comm radix]
      apply Nat.mul_le_mul_right
      apply Nat.mul_le_mul_right
      omega
    have within : ¬ Double.exactIntegerLimit.atMost
        (.ofUnits (n * unitsPerOne) / .ofNat radix) = true := by
      rw [exactIntegerLimit_eq, Double.ofNat_eq_ofUnits,
        Double.ofUnits_div (.ones bounded) (.ones (by omega)) divides]
      exact Double.not_ofUnits_atMost (.ones (Nat.le_refl _)) (.ones (by decide)) divides
        (Nat.mul_lt_mul_of_pos_right (by decide) Magnitude.unitsPerOne_pos) quotient
    rw [dropInexact, if_neg within]

/-- A binary digit group of a whole exact value, moved anywhere below its place, is exact. -/
theorem isExact_div_two_pow (exact : IsExact (n * unitsPerOne)) {high low : Nat}
    (ordered : low ≤ high) : IsExact (n / 2 ^ high * 2 ^ low * unitsPerOne) := by
  have moved : n / 2 ^ high * 2 ^ low * unitsPerOne =
      n * unitsPerOne / 2 ^ (high + 1074) * 2 ^ (low + 1074) := by
    rw [pow_add 2 high, pow_add 2 low, ← Magnitude.unitsPerOne_eq,
      Nat.mul_div_mul_right _ _ Magnitude.unitsPerOne_pos, Nat.mul_assoc]
  have less : n / 2 ^ high * 2 ^ low * unitsPerOne ≤ n * unitsPerOne :=
    Nat.mul_le_mul_right _ ((Nat.mul_le_mul_left _ (Nat.pow_le_pow_right Nat.two_pos ordered)).trans
      (Nat.div_mul_le_self ..))
  have bound := less.trans_lt exact.lt
  rw [moved] at bound ⊢
  exact (exact.div_two_pow _).mul_two_pow _ bound

theorem DividesExactly.of_two_pow (bits : Nat) (exact : IsExact (n * unitsPerOne)) :
    DividesExactly (2 ^ bits) n := by
  constructor
  · intro places
    rw [← Nat.pow_mul]
    simpa using isExact_div_two_pow exact (Nat.zero_le (bits * places))
  · intro places
    rw [← Nat.pow_mul]
    exact isExact_div_two_pow exact (Nat.le_mul_of_pos_right bits (Nat.succ_pos places))

theorem DividesExactly.of_le (bounded : n ≤ 2 ^ 53) : DividesExactly radix n := by
  constructor
  · intro places
    exact .ones ((Nat.div_le_self ..).trans bounded)
  · intro places
    have less : n / radix ^ (places + 1) * radix ≤ n := by
      rw [Nat.pow_succ, ← Nat.div_div_eq_div_mul]
      exact (Nat.div_mul_le_self ..).trans (Nat.div_le_self ..)
    exact .ones (less.trans bounded)

theorem two_pow_dvd_of_le {bits : Nat} (exact : IsExact (n * unitsPerOne))
    (large : 2 ^ 53 * unitsPerOne * 2 ^ bits ≤ n * unitsPerOne) : 2 ^ bits ∣ n := by
  have aligned : 2 ^ (bits + 1074) ∣ n * unitsPerOne := by
    apply exact.two_pow_dvd
    rwa [pow_add, ← Magnitude.unitsPerOne_eq, Nat.mul_comm (2 ^ bits), ← Nat.mul_assoc]
  rw [pow_add, ← Magnitude.unitsPerOne_eq] at aligned
  exact Nat.dvd_of_mul_dvd_mul_right Magnitude.unitsPerOne_pos aligned

/-- In a binary radix only zeros are dropped. -/
theorem dropInexact_of_two_pow {bits : Nat} (small : 2 ^ bits ≤ 36)
    (exact : IsExact (n * unitsPerOne)) (fuel count : Nat) :
    ∃ zeros, (2 ^ bits) ^ zeros ∣ n ∧
      dropInexact (.ofNat (2 ^ bits)) fuel (.ofUnits (n * unitsPerOne)) count =
        (.ofUnits (n / (2 ^ bits) ^ zeros * unitsPerOne), count + zeros) := by
  have unchanged (m : Nat) : (2 ^ bits) ^ 0 ∣ m ∧ m / (2 ^ bits) ^ 0 = m := by simp
  induction fuel generalizing n count with
  | zero => exact ⟨0, (unchanged n).1, by rw [(unchanged n).2]; rfl⟩
  | succ fuel ih =>
    have positive := Nat.two_pow_pos bits
    have divides : 0 < 2 ^ bits * unitsPerOne := Nat.mul_pos positive Magnitude.unitsPerOne_pos
    have fine : 2 ^ bits ∣ unitsPerOne := by
      have short : bits ≤ 1074 := by
        have := Nat.lt_two_pow_self (n := bits)
        omega
      rw [Magnitude.unitsPerOne_eq]
      exact pow_dvd_pow 2 short
    have quotientExact : IsExact (n * unitsPerOne / 2 ^ bits) := exact.div_two_pow bits
    have quotient : Double.ofUnits (n * unitsPerOne) / Double.ofNat (2 ^ bits) =
        .ofUnits (n * unitsPerOne / 2 ^ bits) := by
      rw [Double.ofNat_eq_ofUnits, Double.ofUnits_div exact (.ones (by omega)) divides,
        Double.nearest_of_dvd divides, Double.ofUnits]
      rw [← Nat.mul_assoc, Nat.div_mul_cancel (fine.mul_left n)]
    rw [dropInexact, quotient]
    by_cases beyond : Double.exactIntegerLimit.atMost (.ofUnits (n * unitsPerOne / 2 ^ bits)) = true
    · rw [if_pos beyond]
      rw [exactIntegerLimit_eq] at beyond
      have more := (Double.ofUnits_atMost (.ones (Nat.le_refl _)) quotientExact).mp beyond
      obtain ⟨m, rfl⟩ := two_pow_dvd_of_le exact ((Nat.le_div_iff_mul_le positive).mp more)
      have divided : 2 ^ bits * m * unitsPerOne / 2 ^ bits = m * unitsPerOne := by
        rw [Nat.mul_assoc, Nat.mul_div_cancel_left _ positive]
      rw [divided] at quotientExact ⊢
      obtain ⟨zeros, divides, dropped⟩ := ih quotientExact (count + 1)
      refine ⟨zeros + 1, ?_, ?_⟩
      · rw [Nat.pow_succ']
        exact Nat.mul_dvd_mul_left _ divides
      · rw [dropped, Nat.pow_succ', Nat.mul_div_mul_left _ _ positive, Nat.add_assoc,
          Nat.add_comm 1]
    · rw [if_neg beyond]
      exact ⟨0, (unchanged n).1, by rw [(unchanged n).2]; rfl⟩

/-- The naturals whose digits in a radix come out right. -/
def WholeIsExact (radix n : Nat) : Prop :=
  n ≤ 2 ^ 53 ∨ ∃ bits, radix = 2 ^ bits ∧ IsExact (n * unitsPerOne)

theorem WholeIsExact.drop (large : 1 < radix) (small : radix ≤ 36) (whole : WholeIsExact radix n)
    (fuel : Nat) :
    ∃ zeros, radix ^ zeros ∣ n ∧ DividesExactly radix (n / radix ^ zeros) ∧
      dropInexact (.ofNat radix) fuel (.ofUnits (n * unitsPerOne)) 0 =
        (.ofUnits (n / radix ^ zeros * unitsPerOne), zeros) := by
  obtain bounded | ⟨bits, rfl, exact⟩ := whole
  · refine ⟨0, by simp, .of_le (by simpa using bounded), ?_⟩
    rw [dropInexact_of_le large small bounded, Nat.pow_zero, Nat.div_one]
  · obtain ⟨zeros, divides, dropped⟩ := dropInexact_of_two_pow small exact fuel 0
    refine ⟨zeros, divides, .of_two_pow bits ?_, by rw [dropped, Nat.zero_add]⟩
    rw [← Nat.pow_mul]
    simpa using isExact_div_two_pow exact (Nat.zero_le (bits * zeros))

/-- The whole digits of a double are those of a natural, with the zeros that were dropped. -/
theorem WholeIsExact.digits_eq (large : 1 < radix) (small : radix ≤ 36)
    (whole : WholeIsExact radix n) (finite : n < 2 ^ 1024) :
    let dropped := dropInexact (.ofNat radix) 1100 (.ofUnits (n * unitsPerOne)) 0
    wholeDigits (.ofNat radix) 1100 dropped.1 (List.replicate dropped.2 0) = digitsOf radix n := by
  have within {fewer : Nat} (less : fewer ≤ n) : fewer < radix ^ (1099 + 1) :=
    calc fewer ≤ n := less
      _ < 2 ^ 1024 := finite
      _ ≤ 2 ^ (1099 + 1) := pow_le_pow_right₀ one_le_two (by decide)
      _ ≤ radix ^ (1099 + 1) := pow_le_pow_left₀ (Nat.zero_le 2) large _
  dsimp only
  rcases Nat.eq_zero_or_pos n with rfl | positive
  · rw [dropInexact_of_le large small (Nat.zero_le _),
      wholeDigits_eq large small (.of_le (Nat.zero_le _)) (within (Nat.le_refl 0)),
      List.replicate_zero, List.append_nil]
  · obtain ⟨zeros, divides, exactly, dropped⟩ := whole.drop large small 1100
    have some : 0 < n / radix ^ zeros :=
      Nat.div_pos (Nat.le_of_dvd positive divides) (Nat.pow_pos (by omega))
    rw [dropped, wholeDigits_eq large small exactly (within (Nat.div_le_self ..)),
      ← digitsOf_mul_pow large some, Nat.div_mul_cancel divides]

end Numeral

end ScriptCore
