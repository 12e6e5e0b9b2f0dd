import ScriptCore.Proofs.Number.Acceptance
import ScriptCore.Proofs.Number.Sticky

/-! # Prefixed integers

The digits of a prefixed integer are taken in one by one. That is exact up to `2^53`, and the digit
that goes beyond is rounded in. Each of those after it is less than half a unit in the last place, so
it only moves the number to another block. The result is that of rounding the integer once, unless
the first digits end in a tie: it goes to the even neighbour, whatever follows.
-/

namespace ScriptCore

open Magnitude (IsExact unitsPerOne unitsPerOne_pos infinityRank nearestRank)

/-! ## Digits taken in and left out -/

/-- The value of the digits up to the one that brings it to `2^53`, and the digits after that. -/
def takeSignificant (radix : ℕ) : ℕ → List ℕ → ℕ × List ℕ
  | value, [] => (value, [])
  | value, digit :: digits =>
    if value < 2 ^ 53 then takeSignificant radix (value * radix + digit) digits
    else (value, digit :: digits)

/-- The first digits lie halfway between two doubles, above the even one, and the others are not all
zero. -/
def LosesTie (radix : ℕ) (digits : List ℕ) : Prop :=
  let taken := takeSignificant radix 0 digits
  2 ^ 53 ≤ taken.1 ∧ IsLowTie taken.1 (2 ^ (taken.1.log2 - 53)) ∧ ofDigits radix taken.2 ≠ 0

section

variable (radix value : ℕ) (digits : List ℕ)

theorem takeSignificant_value :
    (takeSignificant radix value digits).1 * radix ^ (takeSignificant radix value digits).2.length +
        ofDigits radix (takeSignificant radix value digits).2 =
      value * radix ^ digits.length + ofDigits radix digits := by
  induction digits generalizing value with
  | nil => rfl
  | cons digit digits ih =>
    rw [takeSignificant]
    split
    · rw [ih, ofDigits_cons, List.length_cons]
      ring
    · rfl

theorem takeSignificant_subset : (takeSignificant radix value digits).2 ⊆ digits := by
  induction digits generalizing value with
  | nil => exact List.Subset.refl _
  | cons digit digits ih =>
    rw [takeSignificant]
    split
    · exact List.subset_cons_of_subset _ (ih _)
    · exact List.Subset.refl _

theorem takeSignificant_eq_nil (small : (takeSignificant radix value digits).1 < 2 ^ 53) :
    (takeSignificant radix value digits).2 = [] := by
  induction digits generalizing value with
  | nil => rfl
  | cons digit digits ih =>
    rw [takeSignificant] at small ⊢
    split at small
    · next short =>
      rw [if_pos short]
      exact ih _ small
    · next reached => exact absurd small reached

end

namespace Double

/-- Takes one more digit into an integer. -/
def takeDigit (radix : ℕ) (value : Double) (digit : ℕ) : Double := value * ofNat radix + ofNat digit

variable {bits : ℕ}

/-! ## Up to `2^53` -/

theorem takeDigit_exact (small : 2 ^ bits ≤ 36) {value digit : ℕ} (bounded : value < 2 ^ 53)
    (isDigit : digit < 2 ^ bits) :
    takeDigit (2 ^ bits) (ofUnits (value * unitsPerOne)) digit =
      ofUnits ((value * 2 ^ bits + digit) * unitsPerOne) := by
  have exact := IsExact.ones bounded.le
  have finite : value * unitsPerOne * 2 ^ bits < 2 ^ 2098 := by
    rw [Nat.mul_right_comm]
    exact Magnitude.mul_unitsPerOne_lt ((Nat.mul_le_mul bounded.le small).trans (by decide))
  rw [takeDigit, ofUnits_mul_ofNat exact (by omega), ofNat_eq_ofUnits,
    ofUnits_add (exact.mul_two_pow bits finite) (.ones (by omega)), Nat.add_mul, Nat.mul_right_comm]

/-- The digits up to the one that brings the value to `2^53` are rounded together. -/
theorem foldl_takeDigit_significant (small : 2 ^ bits ≤ 36) {digits : List ℕ}
    (each : ∀ digit ∈ digits, digit < 2 ^ bits) (value : ℕ) :
    digits.foldl (takeDigit (2 ^ bits)) (ofUnits (value * unitsPerOne)) =
      (takeSignificant (2 ^ bits) value digits).2.foldl (takeDigit (2 ^ bits))
        (ofUnits ((takeSignificant (2 ^ bits) value digits).1 * unitsPerOne)) := by
  induction digits generalizing value with
  | nil => rfl
  | cons digit digits ih =>
    obtain ⟨isDigit, others⟩ := List.forall_mem_cons.mp each
    rw [takeSignificant]
    split
    · next short => rw [List.foldl_cons, takeDigit_exact small short isDigit, ih others]
    · rfl

/-! ## Beyond `2^53` -/

variable {m : Magnitude}

theorem infinity_mul_ofNat {n : ℕ} (positive : 0 < n) (small : n ≤ 2 ^ 53) :
    infinity * ofNat n = infinity := by
  obtain ⟨k, finite, value, same⟩ := exists_ofNat_eq small
  have nonzero : k.isZero = false :=
    isZero_eq_false (value ▸ Nat.mul_pos positive unitsPerOne_pos)
  have endless : Magnitude.infinity.isInfinite = true := by decide
  rw [same]
  change mul (signed false .infinity) (signed false k) = _
  rw [mul, endless, nonzero]
  rfl

theorem infinity_add_ofNat {n : ℕ} (small : n ≤ 2 ^ 53) : infinity + ofNat n = infinity := by
  obtain ⟨k, finite, -, same⟩ := exists_ofNat_eq small
  have endless : Magnitude.infinity.isInfinite = true := by decide
  rw [same]
  change add (signed false .infinity) (signed false k) = _
  rw [add, endless, isInfinite_eq_false finite]
  rfl

/-- A power of two moves a number to another block. -/
theorem exists_mul_two_pow (small : 2 ^ bits ≤ 2 ^ 53) (normal : 2 ^ 52 ≤ m.rank) :
    ∃ k : Magnitude, signed false m * ofNat (2 ^ bits) = signed false k ∧
      k.rank = min (m.rank + bits * 2 ^ 52) infinityRank := by
  rcases Nat.lt_or_eq_of_le m.rank_le with finite | last
  · refine ⟨.nearest (m.units * 2 ^ bits) 1, ?_, ?_⟩
    · rw [← ofUnits_units, ofUnits_mul_ofNat ⟨m, finite, rfl⟩ small]
      rfl
    · rw [Magnitude.nearest_rank, Magnitude.units, ← Magnitude.unitsOfRank_add_block normal,
        Magnitude.nearestRank_unitsOfRank]
  · obtain rfl : m = .infinity := Magnitude.ext_rank last
    exact ⟨.infinity, infinity_mul_ofNat (Nat.two_pow_pos bits) small,
      (Nat.min_eq_right (Nat.le_add_right ..)).symm⟩

/-- A digit is less than half a unit in the last place. -/
theorem add_digit (small : 2 ^ bits ≤ 2 ^ 53) (large : (1076 + bits) * 2 ^ 52 ≤ m.rank) {digit : ℕ}
    (isDigit : digit < 2 ^ bits) : signed false m + ofNat digit = signed false m := by
  rcases Nat.lt_or_eq_of_le m.rank_le with finite | last
  · obtain ⟨k, bounded, value, same⟩ := exists_ofNat_eq (isDigit.le.trans small)
    have scale : bits + 1 + 1074 ≤ Magnitude.scaleOfRank m.rank := by
      unfold Magnitude.scaleOfRank
      omega
    have half : 2 * k.units < 2 ^ Magnitude.scaleOfRank m.rank :=
      calc 2 * k.units = 2 * digit * unitsPerOne := by rw [value, Nat.mul_assoc]
        _ < 2 ^ (bits + 1) * unitsPerOne := by
          apply Nat.mul_lt_mul_of_pos_right _ unitsPerOne_pos
          rw [Nat.pow_succ']
          exact Nat.mul_lt_mul_of_pos_left isDigit Nat.two_pos
        _ = 2 ^ (bits + 1 + 1074) := by rw [Magnitude.unitsPerOne_eq, ← Nat.pow_add]
        _ ≤ 2 ^ Magnitude.scaleOfRank m.rank := Nat.pow_le_pow_right Nat.two_pos scale
    have sum : signed false m + signed false k = ofUnits (m.units + k.units) :=
      add_eq_ofUnits finite bounded false rfl
    have rounded : Magnitude.nearest (m.units + k.units) 1 = m := by
      apply Magnitude.ext_rank
      rw [Magnitude.nearest_rank, Magnitude.units, Magnitude.nearestRank_add_of_lt half]
      exact Nat.min_eq_left finite.le
    rw [same, sum, ofUnits, nearest, rounded]
  · obtain rfl : m = .infinity := Magnitude.ext_rank last
    exact infinity_add_ofNat (isDigit.le.trans small)

theorem exists_takeDigit_rounded (small : 2 ^ bits ≤ 36) (large : 1076 * 2 ^ 52 ≤ m.rank)
    {digit : ℕ} (isDigit : digit < 2 ^ bits) :
    ∃ k : Magnitude, takeDigit (2 ^ bits) (signed false m) digit = signed false k ∧
      k.rank = min (m.rank + bits * 2 ^ 52) infinityRank := by
  obtain ⟨k, product, rank⟩ := exists_mul_two_pow (small.trans (by decide)) (m := m) (by omega)
  refine ⟨k, ?_, rank⟩
  rw [takeDigit, product]
  rcases Nat.lt_or_ge (m.rank + bits * 2 ^ 52) infinityRank with within | beyond
  · rw [Nat.min_eq_left within.le] at rank
    apply add_digit (small.trans (by decide)) _ isDigit
    rw [rank, Nat.add_mul]
    exact Nat.add_le_add_right large _
  · obtain rfl : k = .infinity := Magnitude.ext_rank (rank.trans (Nat.min_eq_right beyond))
    exact infinity_add_ofNat (by omega)

theorem min_min_add (rank shift top : ℕ) :
    min (min rank top + shift) top = min (rank + shift) top := by
  omega

theorem exists_foldl_takeDigit_rounded (small : 2 ^ bits ≤ 36) {digits : List ℕ}
    (each : ∀ digit ∈ digits, digit < 2 ^ bits) (large : 1076 * 2 ^ 52 ≤ m.rank) :
    ∃ k : Magnitude, digits.foldl (takeDigit (2 ^ bits)) (signed false m) = signed false k ∧
      k.rank = min (m.rank + bits * digits.length * 2 ^ 52) infinityRank := by
  induction digits generalizing m with
  | nil =>
    refine ⟨m, rfl, ?_⟩
    rw [List.length_nil, Nat.mul_zero, Nat.zero_mul, Nat.add_zero]
    exact (Nat.min_eq_left m.rank_le).symm
  | cons digit digits ih =>
    obtain ⟨isDigit, others⟩ := List.forall_mem_cons.mp each
    obtain ⟨next, isNext, rank⟩ := exists_takeDigit_rounded small large isDigit
    obtain ⟨k, isLast, last⟩ := ih others (m := next) (by unfold infinityRank at rank; omega)
    refine ⟨k, by rw [List.foldl_cons, isNext, isLast], ?_⟩
    rw [last, rank, min_min_add, List.length_cons, Nat.mul_add, Nat.mul_one, Nat.add_mul,
      Nat.add_assoc, Nat.add_comm (bits * 2 ^ 52)]

/-! ## All digits -/

theorem rank_le_of_reached {n : ℕ} (reached : 2 ^ 53 ≤ n) :
    1076 * 2 ^ 52 ≤ nearestRank (n * unitsPerOne) 1 := by
  have first : Magnitude.unitsOfRank (1076 * 2 ^ 52) = 2 ^ 53 * unitsPerOne :=
    Magnitude.unitsOfRank_two_pow 53
  apply Magnitude.le_nearestRank Nat.one_pos
  rw [first, Nat.one_mul]
  exact Nat.mul_le_mul_right _ reached

/-- What the digits come to, by the rank to which their value is rounded. -/
structure TakenIn (radix : ℕ) (digits : List ℕ) (m : Magnitude) (rank : ℕ) : Prop where
  cut : m.rank = min rank infinityRank
  kept : ¬ LosesTie radix digits → nearestRank (ofDigits radix digits * unitsPerOne) 1 = rank
  lost : LosesTie radix digits →
    nearestRank (ofDigits radix digits * unitsPerOne) 1 = rank + 1 ∧ rank % 2 = 0

namespace TakenIn

variable {radix rank : ℕ} {digits : List ℕ} (taken : TakenIn radix digits m rank)
include taken

theorem eq_infinity_iff : m = .infinity ↔
    infinityRank ≤ nearestRank (ofDigits radix digits * unitsPerOne) 1 := by
  obtain ⟨cut, kept, lost⟩ := taken
  have even : infinityRank % 2 = 0 := by decide
  have last : m = .infinity ↔ m.rank = infinityRank :=
    ⟨congrArg _, fun same => Magnitude.ext_rank same⟩
  rw [last, cut]
  generalize infinityRank = top at *
  by_cases loses : LosesTie radix digits
  · obtain ⟨raised, rankEven⟩ := lost loses
    omega
  · have same := kept loses
    omega

theorem eq_nearest (exact : m = .infinity ∨ ¬ LosesTie radix digits) :
    m = .nearest (ofDigits radix digits * unitsPerOne) 1 := by
  apply Magnitude.ext_rank
  rw [Magnitude.nearest_rank]
  rcases exact with infinite | keeps
  · rw [Nat.min_eq_right (taken.eq_infinity_iff.mp infinite), infinite]
    rfl
  · rw [taken.kept keeps, taken.cut]

/-- A tie that goes to the even neighbour has the nearest double behind that. -/
theorem next_eq_nearest (finite : m ≠ .infinity) (loses : LosesTie radix digits) :
    m ≠ .nearest (ofDigits radix digits * unitsPerOne) 1 ∧
      m.next = .nearest (ofDigits radix digits * unitsPerOne) 1 := by
  have less := Nat.lt_of_not_le (taken.eq_infinity_iff.not.mp finite)
  have raised := (taken.lost loses).1
  have cut := taken.cut
  have rounded := Magnitude.nearest_rank (ofDigits radix digits * unitsPerOne) 1
  generalize Magnitude.nearest (ofDigits radix digits * unitsPerOne) 1 = nearest at *
  rw [raised] at less rounded
  constructor
  · rintro rfl
    omega
  · apply Magnitude.ext_rank
    rw [Magnitude.next]
    dsimp only
    omega

end TakenIn

section

variable (small : 2 ^ bits ≤ 36) (large : 1 < 2 ^ bits) {digits : List ℕ}
  (each : ∀ digit ∈ digits, digit < 2 ^ bits)
include small each

theorem foldl_takeDigit_zero :
    digits.foldl (takeDigit (2 ^ bits)) zero =
      (takeSignificant (2 ^ bits) 0 digits).2.foldl (takeDigit (2 ^ bits))
        (signed false (.nearest ((takeSignificant (2 ^ bits) 0 digits).1 * unitsPerOne) 1)) := by
  have start := foldl_takeDigit_significant small each 0
  rwa [Nat.zero_mul, ofUnits_zero] at start

/-- An integer below `2^53` is taken in as it is. -/
theorem exists_takenIn_of_lt (less : (takeSignificant (2 ^ bits) 0 digits).1 < 2 ^ 53) :
    ∃ m rank, digits.foldl (takeDigit (2 ^ bits)) zero = signed false m ∧
      TakenIn (2 ^ bits) digits m rank := by
  have value := takeSignificant_value (2 ^ bits) 0 digits
  have none := takeSignificant_eq_nil (2 ^ bits) 0 digits less
  have nothing : ofDigits (2 ^ bits) [] = 0 := rfl
  rw [none, nothing, Nat.zero_mul, Nat.zero_add, List.length_nil, pow_zero, Nat.mul_one,
    Nat.add_zero] at value
  rw [foldl_takeDigit_zero small each, none]
  refine ⟨_, _, rfl, rfl, fun _ => ?_, fun lost => ?_⟩
  · rw [value]
  · exact absurd lost.1 (Nat.not_le_of_lt less)

include large in
/-- Beyond `2^53` the first digits are rounded, and those after them move the result. -/
theorem exists_takenIn_of_reached (reached : 2 ^ 53 ≤ (takeSignificant (2 ^ bits) 0 digits).1) :
    ∃ m rank, digits.foldl (takeDigit (2 ^ bits)) zero = signed false m ∧
      TakenIn (2 ^ bits) digits m rank := by
  have value := takeSignificant_value (2 ^ bits) 0 digits
  have later : ∀ digit ∈ (takeSignificant (2 ^ bits) 0 digits).2, digit < 2 ^ bits :=
    fun digit isDigit => each digit (takeSignificant_subset (2 ^ bits) 0 digits isDigit)
  have loses_iff := Iff.of_eq (LosesTie.eq_def (2 ^ bits) digits)
  rw [foldl_takeDigit_zero small each]
  generalize takeSignificant (2 ^ bits) 0 digits = taken at *
  dsimp only at loses_iff
  have below : ofDigits (2 ^ bits) taken.2 < 2 ^ (bits * taken.2.length) := by
    rw [Nat.pow_mul]
    exact ofDigits_lt large later
  have rounded := Magnitude.nearestRank_mul_add reached below 1074
  rw [Nat.pow_mul, value, Nat.zero_mul, Nat.zero_add, ← Magnitude.unitsPerOne_eq] at rounded
  have normal : 1076 * 2 ^ 52 ≤ (Magnitude.nearest (taken.1 * unitsPerOne) 1).rank :=
    Nat.le_min.mpr ⟨rank_le_of_reached reached, by decide⟩
  obtain ⟨m, isRead, rank⟩ := exists_foldl_takeDigit_rounded small later normal
  refine ⟨m, nearestRank (taken.1 * unitsPerOne) 1 + bits * taken.2.length * 2 ^ 52, isRead, ?_,
    fun keeps => ?_, fun lost => ?_⟩
  · rw [rank, Magnitude.nearest_rank, min_min_add]
  · rw [loses_iff, not_and] at keeps
    rw [rounded, if_neg (keeps reached), Nat.add_zero]
  · obtain ⟨-, tie⟩ := loses_iff.mp lost
    have even := Magnitude.nearestRank_even_of_lowTie reached tie.1 1074
    rw [rounded, if_pos tie]
    rw [← Magnitude.unitsPerOne_eq] at even
    exact ⟨rfl, by omega⟩

include large in
theorem exists_takenIn :
    ∃ m rank, digits.foldl (takeDigit (2 ^ bits)) zero = signed false m ∧
      TakenIn (2 ^ bits) digits m rank :=
  (Nat.lt_or_ge (takeSignificant (2 ^ bits) 0 digits).1 (2 ^ 53)).elim
    (exists_takenIn_of_lt small each) (exists_takenIn_of_reached small large each)

end

end Double

/-! ## Texts of prefixed integers -/

theorem digitValue?_lt {radix digit : ℕ} {c : Char} (found : digitValue? radix c = some digit) :
    digit < radix := by
  unfold digitValue? at found
  obtain ⟨less, same⟩ := Option.ite_none_right_eq_some.mp found
  exact Option.some.inj same ▸ less

namespace RadixMark

def bits : RadixMark → ℕ
  | hexadecimal => 4
  | octal => 3
  | binary => 1

theorem radix_eq (mark : RadixMark) : mark.radix = 2 ^ mark.bits := by
  cases mark <;> rfl

theorem radix_bounds (mark : RadixMark) : 1 < mark.radix ∧ mark.radix ≤ 36 := by
  cases mark <;> decide

/-- What digits of the radix stand for. -/
def values (mark : RadixMark) (digits : List Char) : List ℕ :=
  digits.map fun c => (digitValue? mark.radix c).getD 0

/-- The integer that digits of the radix denote. -/
def integer (mark : RadixMark) (digits : List Char) : ℕ := ofDigits mark.radix (mark.values digits)

theorem values_lt (mark : RadixMark) (digits : List Char) :
    ∀ digit ∈ mark.values digits, digit < mark.radix := by
  intro digit isValue
  obtain ⟨c, -, rfl⟩ := List.mem_map.mp isValue
  cases found : digitValue? mark.radix c with
  | none => exact Nat.zero_lt_of_lt mark.radix_bounds.1
  | some digit => exact digitValue?_lt found

end RadixMark

namespace Double

theorem foldl_readDigit?_eq (mark : RadixMark) {digits : List Char} (valid : digits ⊆ mark.alphabet)
    (value : Double) :
    digits.foldl (readDigit? mark.radix) (some value) =
      some ((mark.values digits).foldl (takeDigit mark.radix) value) := by
  induction digits generalizing value with
  | nil => rfl
  | cons c digits ih =>
    obtain ⟨isDigit, others⟩ := List.cons_subset.mp valid
    obtain ⟨digit, isValue⟩ :=
      Option.isSome_iff_exists.mp ((digitValue?_isSome_iff mark c).mpr isDigit)
    have step : readDigit? mark.radix (some value) c = some (takeDigit mark.radix value digit) := by
      rw [readDigit?, isValue]
      rfl
    have values : mark.values (c :: digits) = digit :: mark.values digits := by
      rw [RadixMark.values, List.map_cons, isValue]
      rfl
    rw [List.foldl_cons, step, ih others, values, List.foldl_cons]

/-- Neither the zero nor a digit is a blank. -/
theorem trimBlanks_prefixed (mark : RadixMark) (capital : Bool) {digits : List Char}
    (nonempty : digits ≠ []) (valid : digits ⊆ mark.alphabet) :
    trimBlanks ('0' :: mark.letter capital :: digits) = '0' :: mark.letter capital :: digits := by
  have visible : mark.alphabet.all fun c => !isBlank c := by
    cases mark <;> decide
  refine (isTrimmed_iff.mp ⟨⟨[], [], by simp, by simp⟩, ?_, ?_⟩).symm
  · intro c isFirst
    obtain rfl : '0' = c := Option.some.inj isFirst
    decide
  · intro c isLast
    rw [List.getLast?_cons_of_ne_nil (by simp), List.getLast?_cons_of_ne_nil nonempty] at isLast
    have isDigit := valid (List.mem_of_getLast? isLast)
    exact Bool.not_inj (List.all_eq_true.mp visible c isDigit)

theorem ofText_prefixed_eq (mark : RadixMark) (capital : Bool) {digits : List Char}
    (nonempty : digits ≠ []) (valid : digits ⊆ mark.alphabet) :
    ofText (String.ofList ('0' :: mark.letter capital :: digits)) =
      (mark.values digits).foldl (takeDigit mark.radix) zero := by
  rw [ofText, ofTextBy, String.toList_ofList, trimBlanks_prefixed mark capital nonempty valid,
    readTrimmedBy_prefixed, readDigits_eq, if_neg (by simpa using nonempty),
    foldl_readDigit?_eq mark valid, Option.getD_some]

/-- From the midpoint beyond the last double on, an integer is rounded to infinity. -/
theorem infinityRank_le_iff {n : ℕ} :
    infinityRank ≤ nearestRank (n * unitsPerOne) 1 ↔ 2 ^ 1024 - 2 ^ 970 ≤ n := by
  have bound : nearestRank ((2 ^ 1024 - 2 ^ 970) * unitsPerOne) 1 = infinityRank := by decide +kernel
  have before : nearestRank ((2 ^ 1024 - 2 ^ 970 - 1) * unitsPerOne) 1 = infinityRank - 1 := by
    decide +kernel
  have positive : 0 < infinityRank := by decide
  generalize 2 ^ 1024 - 2 ^ 970 = midpoint at *
  constructor
  · refine fun beyond => Nat.le_of_not_lt fun less => ?_
    have mono := Magnitude.nearestRank_mono Nat.one_pos
      (Nat.mul_le_mul_right unitsPerOne (Nat.le_sub_one_of_lt less))
    omega
  · intro atLeast
    rw [← bound]
    exact Magnitude.nearestRank_mono Nat.one_pos (Nat.mul_le_mul_right _ atLeast)

/-- A prefixed integer of any length is read as infinity exactly from the midpoint beyond the last
double on. Otherwise it is read as the nearest double, ties to even, unless its first digits end in a
tie that the others break: then it is read as the double before that one. -/
theorem ofText_prefixed (mark : RadixMark) (capital : Bool) {digits : List Char}
    (nonempty : digits ≠ []) (valid : digits ⊆ mark.alphabet) :
    ∃ m, ofText (String.ofList ('0' :: mark.letter capital :: digits)) = signed false m ∧
      (m = .infinity ↔ 2 ^ 1024 - 2 ^ 970 ≤ mark.integer digits) ∧
      (m.IsNearest (mark.integer digits * unitsPerOne) ↔
        2 ^ 1024 - 2 ^ 970 ≤ mark.integer digits ∨ ¬ LosesTie mark.radix (mark.values digits)) ∧
      (m.IsNearest (mark.integer digits * unitsPerOne) ∨
        m.next.IsNearest (mark.integer digits * unitsPerOne)) := by
  obtain ⟨large, small⟩ := mark.radix_bounds
  have each := mark.values_lt digits
  rw [ofText_prefixed_eq mark capital nonempty valid, ← infinityRank_le_iff]
  rw [RadixMark.integer]
  rw [mark.radix_eq] at large small each ⊢
  generalize mark.values digits = values at *
  obtain ⟨m, rank, isRead, taken⟩ := exists_takenIn small large each
  have nearest := Magnitude.isNearest_nearest
    (ofDigits (2 ^ mark.bits) values * unitsPerOne) Nat.one_pos
  rw [Nat.cast_one, div_one, Nat.cast_mul] at nearest
  refine ⟨m, isRead, taken.eq_infinity_iff, ?_⟩
  rw [← taken.eq_infinity_iff]
  by_cases exact : m = .infinity ∨ ¬ LosesTie (2 ^ mark.bits) values
  · rw [← taken.eq_nearest exact] at nearest
    exact ⟨iff_of_true nearest exact, .inl nearest⟩
  · obtain ⟨finite, loses⟩ := not_or.mp exact
    obtain ⟨different, next⟩ := taken.next_eq_nearest finite (not_not.mp loses)
    rw [next]
    exact ⟨iff_of_false (fun isNearest => different (isNearest.unique nearest)) exact, .inr nearest⟩

/-- Leading zeros and a tie above an odd neighbour, which goes up in any case. -/
theorem ofText_prefixed_odd :
    let mark := RadixMark.hexadecimal
    let digits := "00200000000000031".toList
    digits ≠ [] ∧ digits ⊆ mark.alphabet ∧
      ∃ m, ofText (String.ofList ('0' :: mark.letter true :: digits)) = signed false m ∧
        (m = .infinity ↔ 2 ^ 1024 - 2 ^ 970 ≤ mark.integer digits) ∧
        (m.IsNearest (mark.integer digits * unitsPerOne) ↔
          2 ^ 1024 - 2 ^ 970 ≤ mark.integer digits ∨ ¬ LosesTie mark.radix (mark.values digits)) ∧
        (m.IsNearest (mark.integer digits * unitsPerOne) ∨
          m.next.IsNearest (mark.integer digits * unitsPerOne)) := by
  intro mark digits
  have nonempty : digits ≠ [] := by decide
  have valid : digits ⊆ mark.alphabet := by decide
  exact ⟨nonempty, valid, ofText_prefixed mark true nonempty valid⟩

/-- The integer `2^57 + 17` is read as `2^57`, although `2^57 + 32` is nearer: its first fourteen
digits are halfway between the two, and the last one is left out. -/
theorem ofText_prefixed_loses_tie :
    let mark := RadixMark.hexadecimal
    let digits := "200000000000011".toList
    let m : Magnitude := ⟨0x4380000000000000, by decide⟩
    digits ≠ [] ∧ digits ⊆ mark.alphabet ∧ mark.integer digits = 2 ^ 57 + 17 ∧
      ofText (String.ofList ('0' :: mark.letter false :: digits)) = signed false m ∧
      ¬ m.IsNearest (mark.integer digits * unitsPerOne) := by
  intro mark digits m
  have integer : mark.integer digits = 2 ^ 57 + 17 := by decide
  refine ⟨by decide, by decide, integer, by decide +kernel, fun isNearest => ?_⟩
  have nearer := isNearest.nearest ⟨0x4380000000000001, by decide⟩
  rw [integer] at nearer
  revert nearer
  decide +kernel

end Double

end ScriptCore
