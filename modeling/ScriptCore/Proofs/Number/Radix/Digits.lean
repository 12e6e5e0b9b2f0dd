import ScriptCore.Proofs.Number.Radix.Fraction
import ScriptCore.Proofs.Number.Radix.Whole

/-! # The digits of a double in a radix

The digits after the point start with a margin of half the gap to the next double. In a binary radix
they are exact. In any other one they are less than that margin away from the number, provided that
it has few binary places; and then the number attracts them, since it does not begin a block.
-/

namespace ScriptCore

open Magnitude (IsExact unitsPerOne infinityRank scaleOfRank significandOfRank unitsOfRank)

namespace Magnitude

variable {m : Magnitude}

theorem two_pow_scale_dvd (m : Magnitude) : 2 ^ scaleOfRank m.rank ∣ m.units :=
  ⟨significandOfRank m.rank, Nat.mul_comm ..⟩

/-- A magnitude that is not whole has binary places, so its scale is below that of one. -/
theorem scale_lt_of_fraction (fractional : 0 < m.units % unitsPerOne) :
    scaleOfRank m.rank < 1074 := by
  refine Nat.lt_of_not_le fun wide => ?_
  have divides : unitsPerOne ∣ m.units := by
    rw [unitsPerOne_eq]
    exact (pow_dvd_pow 2 wide).trans m.two_pow_scale_dvd
  rw [Nat.mod_eq_zero_of_dvd divides] at fractional
  exact Nat.lt_irrefl 0 fractional

theorem two_pow_scale_dvd_fraction (fractional : 0 < m.units % unitsPerOne) :
    2 ^ scaleOfRank m.rank ∣ m.units % unitsPerOne := by
  have divides : 2 ^ scaleOfRank m.rank ∣ unitsPerOne := by
    rw [unitsPerOne_eq]
    exact pow_dvd_pow 2 (scale_lt_of_fraction fractional).le
  exact (Nat.dvd_mod_iff divides).mpr m.two_pow_scale_dvd

end Magnitude

namespace Double

variable {m : Magnitude}

theorem gap_eq (finite : m.rank + 1 < infinityRank) :
    signed false m.next - signed false m = ofUnits (2 ^ scaleOfRank m.rank) := by
  have nextRank : m.next.rank = m.rank + 1 := Nat.min_eq_left finite.le
  have nextUnits : m.next.units = m.units + 2 ^ scaleOfRank m.rank := by
    rw [Magnitude.units, nextRank, Magnitude.unitsOfRank_succ, Magnitude.units]
  have exact : IsExact m.units := ⟨m, Nat.lt_of_succ_lt finite, rfl⟩
  have nextExact : IsExact m.next.units := ⟨m.next, nextRank ▸ finite, rfl⟩
  have above : m.units ≤ m.next.units := nextUnits ▸ Nat.le_add_right ..
  rw [← ofUnits_units, ← ofUnits_units, ofUnits_sub nextExact exact above, nextUnits,
    Nat.add_sub_cancel_left]

theorem half_mul_two_pow (exponent : Nat) (finite : 2 ^ (exponent + 1) < 2 ^ 2098) :
    half * ofUnits (2 ^ (exponent + 1)) = ofUnits (2 ^ exponent) := by
  have value : 2 ^ 1073 * 2 ^ (exponent + 1) = 2 ^ exponent * unitsPerOne := by
    rw [Magnitude.unitsPerOne_eq, ← pow_add, ← pow_add]
    congr 1
    omega
  rw [half_eq_ofUnits, ofUnits_mul (.two_pow (pow_lt_pow_right₀ one_lt_two (by decide)))
      (.two_pow finite), nearest_of_dvd Magnitude.unitsPerOne_pos value, ofUnits]

/-- The margin is half the gap to the next double, and one unit where that is less. -/
theorem margin_signed (finite : m.rank + 1 < infinityRank) :
    (signed false m).margin = ofUnits (2 ^ (scaleOfRank m.rank - 1)) := by
  have least : signed false ⟨1, by decide⟩ = ofUnits 1 := by decide
  have below : scaleOfRank m.rank < 2098 := by
    unfold scaleOfRank
    unfold infinityRank at finite
    omega
  rw [margin, gap_eq finite, least]
  generalize scaleOfRank m.rank = scale at *
  cases scale with
  | zero => decide +kernel
  | succ scale =>
    have bound : 2 ^ (scale + 1) < 2 ^ 2098 := pow_lt_pow_right₀ one_lt_two below
    have exact : IsExact (2 ^ scale) := .two_pow (pow_lt_pow_right₀ one_lt_two (by omega))
    have enough : ¬ (ofUnits (2 ^ scale)).less (ofUnits 1) = true := by
      rw [ofUnits_less exact (.of_lt (by decide))]
      exact Nat.not_lt.mpr (Nat.one_le_two_pow)
    rw [half_mul_two_pow scale bound, if_neg enough, Nat.add_sub_cancel]

/-- No margin is zero, whatever the gap is. -/
theorem margin_atMost_zero (n : Double) : n.margin.atMost zero = false := by
  cases n with
  | nan => rfl
  | signed negative m =>
    rw [margin]
    generalize half * (signed negative m.next - signed negative m) = halfGap
    split
    · decide
    · next enough =>
      cases halfGap with
      | nan => rfl
      | signed sign size =>
        simp only [less, atMost, place, zero, Magnitude.zero, decide_eq_true_eq,
          decide_eq_false_iff_not] at enough ⊢
        cases sign <;> simp at enough ⊢ <;> omega

end Double

namespace Numeral

variable {radix : Nat} {m : Magnitude}

/-- The digits after the point of a magnitude, last first, and whether a carry left them. -/
def fractionPart (radix : Nat) (m : Magnitude) : List Nat × Bool :=
  let value := Double.signed false m
  let fraction := value - value.truncate
  if value.margin.atMost fraction then fractionDigits radix 1100 fraction value.margin []
  else ([], false)

theorem fraction_eq (finite : m.rank < infinityRank) :
    Double.signed false m - (Double.signed false m).truncate =
      .ofUnits (m.units % unitsPerOne) := by
  have exact : IsExact m.units := ⟨m, finite, rfl⟩
  rw [← Double.ofUnits_units, Double.truncate_ofUnits exact,
    Double.ofUnits_sub exact exact.floor (Nat.div_mul_le_self ..), ← Nat.mod_eq_sub_div_mul]

theorem fractionPart_of_whole (finite : m.rank < infinityRank)
    (whole : m.units % unitsPerOne = 0) : fractionPart radix m = ([], false) := by
  rw [fractionPart, fraction_eq finite, whole, Double.ofUnits_zero, Double.margin_atMost_zero]
  rfl

/-- The margin of a magnitude that is not infinite, in units. -/
def marginUnits (m : Magnitude) : Nat := 2 ^ (scaleOfRank m.rank - 1)

theorem unitsPerOne_le_marginUnits_mul (large : 1 < radix) (m : Magnitude) :
    unitsPerOne ≤ marginUnits m * radix ^ 1100 :=
  calc unitsPerOne = 2 ^ 1074 := Magnitude.unitsPerOne_eq
    _ ≤ 2 ^ 1100 := pow_le_pow_right₀ one_le_two (by decide)
    _ ≤ radix ^ 1100 := pow_le_pow_left₀ (Nat.zero_le 2) large _
    _ ≤ marginUnits m * radix ^ 1100 := Nat.le_mul_of_pos_left _ (Nat.two_pow_pos _)

theorem rank_lt_of_fraction (fractional : 0 < m.units % unitsPerOne) :
    m.rank + 1 < infinityRank := by
  have narrow := Magnitude.scale_lt_of_fraction fractional
  unfold scaleOfRank at narrow
  unfold infinityRank
  omega

theorem isExact_marginUnits (fractional : 0 < m.units % unitsPerOne) : IsExact (marginUnits m) := by
  have narrow := Magnitude.scale_lt_of_fraction fractional
  exact .two_pow (pow_lt_pow_right₀ one_lt_two (by omega))

theorem marginUnits_le_fraction (fractional : 0 < m.units % unitsPerOne) :
    marginUnits m ≤ m.units % unitsPerOne :=
  (Nat.pow_le_pow_right Nat.two_pos (Nat.sub_le ..)).trans
    (Nat.le_of_dvd fractional (Magnitude.two_pow_scale_dvd_fraction fractional))

/-- Where a magnitude has a fraction, the loop of its digits starts with that and the margin. -/
theorem fractionPart_of_fraction (radix : Nat) (fractional : 0 < m.units % unitsPerOne) :
    let value := Double.signed false m
    value.margin = .ofUnits (marginUnits m) ∧
      value - value.truncate = .ofUnits (m.units % unitsPerOne) ∧
      value.margin.atMost (value - value.truncate) = true ∧
      fractionPart radix m = fractionDigits radix 1100 (.ofUnits (m.units % unitsPerOne))
        (.ofUnits (marginUnits m)) [] := by
  intro value
  have below := rank_lt_of_fraction fractional
  have finite := Nat.lt_of_succ_lt below
  have isMargin : value.margin = .ofUnits (marginUnits m) := Double.margin_signed below
  have isFraction : value - value.truncate = .ofUnits (m.units % unitsPerOne) := fraction_eq finite
  have starts : value.margin.atMost (value - value.truncate) = true := by
    rw [isMargin, isFraction, Double.ofUnits_atMost (isExact_marginUnits fractional)
      (IsExact.fraction ⟨m, finite, rfl⟩)]
    exact marginUnits_le_fraction fractional
  refine ⟨isMargin, isFraction, starts, ?_⟩
  rw [fractionPart, if_pos starts, isFraction, isMargin]

theorem fractionPart_ends (large : 1 < radix) (small : radix ≤ 36)
    (fractional : 0 < m.units % unitsPerOne)
    (exactly : RunsExactly radix (m.units % unitsPerOne) (marginUnits m)) :
    Ends radix (m.units % unitsPerOne) (marginUnits m) (fractionPart radix m) ∧
      ∀ digit ∈ (fractionPart radix m).1, digit < radix := by
  obtain ⟨-, -, -, computed⟩ := fractionPart_of_fraction radix fractional
  rw [computed]
  exact fractionDigits_ends_of_le large small exactly (Nat.mod_lt _ Magnitude.unitsPerOne_pos)
    (marginUnits_le_fraction fractional) (unitsPerOne_le_marginUnits_mul large m)

/-- In a binary radix the digits of the fraction are its value: whether or not they may be rounded
up, they never are, and they do not end before nothing is left. -/
theorem fractionPart_exact {bits : Nat} (large : 1 < 2 ^ bits) (small : 2 ^ bits ≤ 36)
    (finite : m.rank < infinityRank) :
    (∀ digit ∈ (fractionPart (2 ^ bits) m).1, digit < 2 ^ bits) ∧
      carriedValue (2 ^ bits) (fractionPart (2 ^ bits) m) * unitsPerOne =
        m.units % unitsPerOne * (2 ^ bits) ^ (fractionPart (2 ^ bits) m).1.length := by
  rcases Nat.eq_zero_or_pos (m.units % unitsPerOne) with whole | fractional
  · rw [fractionPart_of_whole finite whole, whole, Nat.zero_mul, carriedValue_false]
    exact ⟨List.forall_mem_nil _, Nat.zero_mul _⟩
  · have fractionExact : IsExact (m.units % unitsPerOne) := IsExact.fraction ⟨m, finite, rfl⟩
    have aligned : marginUnits m ∣ m.units % unitsPerOne :=
      (pow_dvd_pow 2 (Nat.sub_le ..)).trans (Magnitude.two_pow_scale_dvd_fraction fractional)
    obtain ⟨ends, each⟩ := fractionPart_ends large small fractional
      (RunsExactly.of_two_pow small fractionExact)
    exact ⟨each, ends.exact aligned⟩

end Numeral

namespace Magnitude

open Numeral (carriedValue fractionPart marginUnits WholeIsExact RunsExactly)

variable {radix : Nat} {m : Magnitude}

/-- A radix in which the digits of a magnitude come without rounding: a power of two, or any other
one for a magnitude with few binary places. That is zero or one between 1 and `2^53` that is a
multiple of `2 ^ -places`, such that `places` and the odd factor of the radix take at most 53
bits. -/
inductive FitsIn (m : Magnitude) : Nat → Prop
  | binary (bits : Nat) : FitsIn m (2 ^ bits)
  | grid (factor bits places : Nat) (room : factor * 2 ^ places ≤ 2 ^ 53)
      (aligned : unitsPerOne ∣ 2 ^ places * m.units) (least : m.units = 0 ∨ unitsPerOne ≤ m.units)
      (greatest : m.units ≤ 2 ^ 53 * unitsPerOne) : FitsIn m (factor * 2 ^ bits)

/-- Within a block the room is the same on both sides. -/
theorem rooms_eq (inside : significandOfRank m.rank ≠ 2 ^ 52) (nonzero : 0 < m.rank) :
    m.roomBelow = 2 ^ scaleOfRank m.rank ∧ m.roomAbove = 2 ^ scaleOfRank m.rank := by
  have same : scaleOfRank (m.rank - 1) = scaleOfRank m.rank := by
    unfold significandOfRank scaleOfRank at *
    omega
  have gapBelow := unitsOfRank_succ (m.rank - 1)
  have gapAbove := unitsOfRank_succ m.rank
  rw [same, Nat.sub_add_cancel nonzero] at gapBelow
  constructor
  · rw [roomBelow, units, gapBelow, Nat.add_sub_cancel_left]
  · rw [roomAbove, units, gapAbove, Nat.add_sub_cancel_left]

/-- A magnitude from one on with a fraction lies within its block: its margin is half the room. -/
theorem rooms_of_fraction (fractional : 0 < m.units % unitsPerOne) (least : unitsPerOne ≤ m.units) :
    m.roomBelow = 2 * marginUnits m ∧ m.roomAbove = 2 * marginUnits m ∧
      2 ^ 1021 ∣ marginUnits m := by
  have value : m.units = significandOfRank m.rank * 2 ^ scaleOfRank m.rank :=
    unitsOfRank_eq m.rank
  have fine : 1022 ≤ scaleOfRank m.rank := by
    have bound : 2 ^ 1074 < 2 ^ (53 + scaleOfRank m.rank) := by
      rw [← unitsPerOne_eq, pow_add]
      exact (value ▸ least).trans_lt
        (Nat.mul_lt_mul_of_pos_right (significandOfRank_lt m.rank) (Nat.two_pow_pos _))
    have := (Nat.pow_lt_pow_iff_right Nat.one_lt_two).mp bound
    omega
  have inside : significandOfRank m.rank ≠ 2 ^ 52 := by
    intro first
    rw [first, ← pow_add] at value
    have wide : 2 ^ 1074 ≤ 2 ^ (52 + scaleOfRank m.rank) := by
      rw [← unitsPerOne_eq, ← value]
      exact least
    have divides : unitsPerOne ∣ m.units := by
      rw [value, unitsPerOne_eq]
      exact pow_dvd_pow 2 ((pow_le_pow_iff_right₀ one_lt_two).mp wide)
    exact fractional.ne' (Nat.mod_eq_zero_of_dvd divides)
  have nonzero : 0 < m.rank := by
    unfold scaleOfRank at fine
    omega
  have rooms := rooms_eq inside nonzero
  have doubled : 2 ^ scaleOfRank m.rank = 2 * marginUnits m := by
    rw [marginUnits, ← Nat.pow_succ', Nat.succ_eq_add_one, Nat.sub_add_cancel (by omega)]
  rw [doubled] at rooms
  exact ⟨rooms.1, rooms.2, pow_dvd_pow 2 (by omega)⟩

/-- The places before the point and the digits after it, in units. -/
def digitUnits (radix : Nat) (m : Magnitude) (result : List Nat × Bool) : ℚ :=
  (m.units / unitsPerOne * unitsPerOne : Nat) +
    carriedValue radix result * unitsPerOne / radix ^ result.1.length

theorem digitUnits_of_exact {result : List Nat × Bool} (positive : 0 < radix)
    (exact : carriedValue radix result * unitsPerOne =
      m.units % unitsPerOne * radix ^ result.1.length) : digitUnits radix m result = m.units := by
  have power : (radix : ℚ) ^ result.1.length ≠ 0 :=
    pow_ne_zero _ (Nat.cast_ne_zero.mpr positive.ne')
  have fraction : (carriedValue radix result * unitsPerOne / radix ^ result.1.length : ℚ) =
      (m.units % unitsPerOne : Nat) := by
    rw [div_eq_iff power]
    exact_mod_cast exact
  rw [digitUnits, fraction, ← Nat.cast_add, Nat.div_add_mod']

theorem attracts_of_exact {result : List Nat × Bool} (positive : 0 < radix)
    (exact : carriedValue radix result * unitsPerOne =
      m.units % unitsPerOne * radix ^ result.1.length) :
    m.Attracts (digitUnits radix m result) := by
  rw [digitUnits_of_exact positive exact]
  exact m.attracts_units

theorem attracts_of_near {result : List Nat × Bool} (positive : 0 < radix)
    (below : m.roomBelow = 2 * marginUnits m) (above : m.roomAbove = 2 * marginUnits m)
    (near : carriedValue radix result * unitsPerOne <
        (m.units % unitsPerOne + marginUnits m) * radix ^ result.1.length ∧
      m.units % unitsPerOne * radix ^ result.1.length <
        carriedValue radix result * unitsPerOne + marginUnits m * radix ^ result.1.length) :
    m.Attracts (digitUnits radix m result) := by
  have power : (0 : ℚ) < radix ^ result.1.length := pow_pos (Nat.cast_pos.mpr positive) _
  have split : (m.units : ℚ) = (m.units / unitsPerOne * unitsPerOne : Nat) +
      (m.units % unitsPerOne : Nat) := by
    rw [← Nat.cast_add, Nat.div_add_mod']
  have upper : (carriedValue radix result * unitsPerOne / radix ^ result.1.length : ℚ) <
      (m.units % unitsPerOne : Nat) + marginUnits m := by
    rw [div_lt_iff₀ power]
    exact_mod_cast near.1
  have lower : ((m.units % unitsPerOne : Nat) : ℚ) <
      carriedValue radix result * unitsPerOne / radix ^ result.1.length + marginUnits m := by
    rw [← sub_lt_iff_lt_add, lt_div_iff₀ power, sub_mul, sub_lt_iff_lt_add]
    exact_mod_cast near.2
  have half : ((2 * marginUnits m : Nat) : ℚ) / 2 = marginUnits m := by
    rw [Nat.cast_mul, Nat.cast_two, mul_div_cancel_left₀ _ two_ne_zero]
  apply Attracts.of_rooms
  · rw [below, half, digitUnits, split]
    linarith
  · rw [above, half, digitUnits, split]
    linarith
  · rw [below, above, half, digitUnits, split]
    rintro (atLower | atUpper) <;> linarith

/-- What the digits of a magnitude come to: digits of the radix, a whole part that is exact with
the carry, and a number that the magnitude attracts. -/
structure DigitsReadBack (radix : Nat) (m : Magnitude) (result : List Nat × Bool) : Prop where
  each : ∀ digit ∈ result.1, digit < radix
  whole : WholeIsExact radix (m.units / unitsPerOne + result.2.toNat)
  bounded : m.units / unitsPerOne + result.2.toNat < 2 ^ 1024
  attracted : m.Attracts (digitUnits radix m result)

theorem whole_lt (finite : m.rank < infinityRank) : m.units / unitsPerOne < 2 ^ 1024 := by
  have bound : m.units < 2 ^ 2098 := IsExact.lt ⟨m, finite, rfl⟩
  refine Nat.div_lt_of_lt_mul (bound.trans_le ?_)
  rw [unitsPerOne_eq, ← pow_add]

theorem FitsIn.whole (fits : m.FitsIn radix) (finite : m.rank < infinityRank) :
    WholeIsExact radix (m.units / unitsPerOne) := by
  cases fits with
  | binary bits => exact .inr ⟨bits, rfl, IsExact.floor ⟨m, finite, rfl⟩⟩
  | grid factor bits places room aligned least greatest =>
    exact .inl (Nat.div_le_of_le_mul (Nat.mul_comm .. ▸ greatest))

/-- A fraction that its digits give exactly does not carry. -/
theorem carried_eq_false {result : List Nat × Bool}
    (exact : carriedValue radix result * unitsPerOne =
      m.units % unitsPerOne * radix ^ result.1.length) (positive : 0 < radix) :
    result.2 = false := by
  have proper := Nat.mul_lt_mul_of_pos_right (Nat.mod_lt m.units unitsPerOne_pos)
    (Nat.pow_pos positive : 0 < radix ^ result.1.length)
  rw [← exact, Nat.mul_comm, Nat.mul_lt_mul_left unitsPerOne_pos] at proper
  rw [Bool.eq_false_iff]
  intro carried
  rw [carriedValue, carried, Bool.toNat_true, Nat.one_mul] at proper
  omega

theorem readBack_binary {bits : Nat} (large : 1 < 2 ^ bits) (small : 2 ^ bits ≤ 36)
    (finite : m.rank < infinityRank) :
    DigitsReadBack (2 ^ bits) m (fractionPart (2 ^ bits) m) := by
  obtain ⟨each, value⟩ := Numeral.fractionPart_exact large small finite
  have kept := carried_eq_false value (Nat.two_pow_pos bits)
  refine ⟨each, ?_, ?_, attracts_of_exact (Nat.two_pow_pos bits) value⟩
  · rw [kept, Bool.toNat_false, Nat.add_zero]
    exact (FitsIn.binary bits).whole finite
  · rw [kept, Bool.toNat_false, Nat.add_zero]
    exact whole_lt finite

theorem readBack_grid {factor bits places : Nat} (large : 1 < factor * 2 ^ bits)
    (small : factor * 2 ^ bits ≤ 36) (fractional : 0 < m.units % unitsPerOne)
    (room : factor * 2 ^ places ≤ 2 ^ 53) (aligned : unitsPerOne ∣ 2 ^ places * m.units)
    (least : unitsPerOne ≤ m.units) (greatest : m.units ≤ 2 ^ 53 * unitsPerOne) :
    DigitsReadBack (factor * 2 ^ bits) m (fractionPart (factor * 2 ^ bits) m) := by
  have factored : 0 < factor := Nat.pos_of_mul_pos_right (Nat.zero_lt_of_lt large)
  have few : places ≤ 53 := (Nat.pow_le_pow_iff_right Nat.one_lt_two).mp
    ((Nat.le_mul_of_pos_left _ factored).trans room)
  obtain ⟨grid, split⟩ := Nat.exists_eq_add_of_le (few.trans (show 53 ≤ 1074 by decide))
  have one : unitsPerOne = 2 ^ places * 2 ^ grid := by
    rw [unitsPerOne_eq, split, pow_add]
  have onGrid : 2 ^ grid ∣ m.units := by
    rw [one] at aligned
    exact Nat.dvd_of_mul_dvd_mul_left (Nat.two_pow_pos places) aligned
  have fractionOnGrid : 2 ^ grid ∣ m.units % unitsPerOne :=
    (Nat.dvd_mod_iff (one ▸ Nat.dvd_mul_left ..)).mpr onGrid
  obtain ⟨below, above, wide⟩ := rooms_of_fraction fractional least
  obtain ⟨ends, each⟩ := Numeral.fractionPart_ends large small fractional
    (RunsExactly.of_grid small room factored split.symm fractionOnGrid wide)
  have positive : 0 < factor * 2 ^ bits := Nat.zero_lt_of_lt large
  have whole : m.units / unitsPerOne + (fractionPart (factor * 2 ^ bits) m).2.toNat ≤ 2 ^ 53 := by
    have less : m.units / unitsPerOne < 2 ^ 53 := by
      apply Nat.div_lt_of_lt_mul
      refine Nat.lt_of_le_of_ne (Nat.mul_comm .. ▸ greatest) fun full => ?_
      rw [full, Nat.mul_mod_right] at fractional
      exact Nat.lt_irrefl 0 fractional
    have carry := Bool.toNat_le (fractionPart (factor * 2 ^ bits) m).2
    omega
  exact ⟨each, .inl whole, whole.trans_lt (by decide +kernel),
    attracts_of_near positive below above (ends.near positive (Nat.two_pow_pos _))⟩

theorem FitsIn.readBack (fits : m.FitsIn radix) (large : 1 < radix) (small : radix ≤ 36)
    (finite : m.rank < infinityRank) : DigitsReadBack radix m (fractionPart radix m) := by
  rcases Nat.eq_zero_or_pos (m.units % unitsPerOne) with whole | fractional
  · rw [Numeral.fractionPart_of_whole finite whole]
    refine ⟨by simp, ?_, ?_, attracts_of_exact (by omega) ?_⟩
    · rw [Bool.toNat_false, Nat.add_zero]
      exact fits.whole finite
    · rw [Bool.toNat_false, Nat.add_zero]
      exact whole_lt finite
    · rw [whole, Nat.zero_mul, Numeral.carriedValue_false]
      simp [ofDigits]
  · cases fits with
    | binary bits => exact readBack_binary large small finite
    | grid factor bits places room aligned least greatest =>
      refine readBack_grid large small fractional room aligned ?_ greatest
      refine least.resolve_left fun none => ?_
      rw [none, Nat.zero_mod] at fractional
      exact Nat.lt_irrefl 0 fractional

end Magnitude

end ScriptCore
