import ScriptCore.Proofs.Number.Radix.Integral

/-! # The form of a numeral in a radix

The loops that write a finite double in a radix all come to an end. The margin at least doubles with
every digit of a fraction, and no fraction reaches the radix by rounding. A quotient by the radix is
at most half as much, and is rounded to a whole number as long as it is not below `2^53`; below that
it may have a fraction, which the next division leaves out. What is written is a sign, digits without
a zero in front, and a fraction without one at its end.
-/

namespace ScriptCore

open Magnitude (IsExact unitsPerOne unitsPerOne_pos infinityRank unitsOfRank)

namespace Numeral

variable {radix : Nat}

/-! ## The digits of the fraction -/

/-- The digits of a fraction, last first: there are not too many, each is one of the radix, and the
last is not zero. -/
structure IsFraction (radix : Nat) (digits : List Nat) : Prop where
  length : digits.length ≤ 1100
  each : ∀ digit ∈ digits, digit < radix
  last : digits.head? ≠ some 0

theorem isFraction_nil : IsFraction radix [] :=
  ⟨Nat.zero_le _, List.forall_mem_nil _, by simp⟩

theorem length_roundUp_le (radix : Nat) (digits : List Nat) :
    (roundUp radix digits).1.length ≤ digits.length := by
  induction digits with
  | nil => exact Nat.le_refl 0
  | cons digit earlier ih =>
    rw [roundUp_cons]
    split
    · exact Nat.le_refl _
    · exact Nat.le_succ_of_le ih

/-- A carry leaves no digit, or a last one that it has added to. -/
theorem head?_roundUp_ne_zero (radix : Nat) (digits : List Nat) :
    (roundUp radix digits).1.head? ≠ some 0 := by
  induction digits with
  | nil => simp [roundUp, carry?]
  | cons digit earlier ih =>
    rw [roundUp_cons]
    split
    · simp
    · exact ih

/-- What is less than one stays below the radix when it is scaled and rounded. -/
theorem roundedUnits_mul_lt (large : 2 ≤ radix) (small : radix ≤ 36) {fraction : Nat}
    (exact : IsExact fraction) (proper : fraction < unitsPerOne) :
    Double.roundedUnits (fraction * radix) < radix * unitsPerOne := by
  have greatest : ∀ radix ≤ 36, 2 ≤ radix →
      Double.roundedUnits (unitsOfRank 0x3fefffffffffffff * radix) < radix * unitsPerOne := by
    decide +kernel
  refine Nat.lt_of_le_of_lt ?_ (greatest radix small large)
  exact Magnitude.nearest_units_mono Nat.one_pos
    (Nat.mul_le_mul_right radix (exact.le_of_lt_one proper))

/-- The states of the loop of the fraction digits, with the room for further ones. The fraction and
its margin are rounded, but doubled as often as there is room the margin still comes to one. -/
inductive FractionRoom (radix : Nat) : Nat → Double × Double × List Nat → Prop
  | intro {room : Nat} (fraction margin : Nat) (digits : List Nat) (start : IsExact fraction)
      (grown : IsExact margin) (ordered : margin ≤ fraction) (proper : fraction < unitsPerOne)
      (enough : unitsPerOne ≤ margin * 2 ^ room) (length : digits.length + room ≤ 1100)
      (each : ∀ digit ∈ digits, digit < radix) :
      FractionRoom radix room (.ofUnits fraction, .ofUnits margin, digits)

theorem not_fractionRoom_zero (state : Double × Double × List Nat) :
    ¬ FractionRoom radix 0 state := by
  rintro ⟨_, _, _, -, -, ordered, proper, enough, -, -⟩
  omega

theorem fractionRound_room (large : 2 ≤ radix) (small : radix ≤ 36) {room : Nat}
    {state : Double × Double × List Nat} (starts : FractionRoom radix (room + 1) state) :
    (∃ result, fractionRound radix state = .inl result ∧ IsFraction radix result.1) ∨
      ∃ following, fractionRound radix state = .inr following ∧
        FractionRoom radix room following := by
  obtain ⟨fraction, margin, digits, start, grown, ordered, proper, enough, length, each⟩ := starts
  have bounded := roundedUnits_mul_lt large small start proper
  obtain ⟨shiftedExact, -⟩ := isExact_roundedUnits_mul small proper.le
  obtain ⟨widenedExact, -⟩ := isExact_roundedUnits_mul small (ordered.trans proper.le)
  have less : Double.roundedUnits (margin * radix) ≤ Double.roundedUnits (fraction * radix) :=
    Magnitude.nearest_units_mono Nat.one_pos (Nat.mul_le_mul_right radix ordered)
  have doubled : margin * 2 ≤ Double.roundedUnits (margin * radix) := by
    have exact : IsExact (margin * 2 ^ 1) := by
      apply grown.mul_two_pow 1
      have := start.lt
      have : 2 * unitsPerOne < 2 ^ 2098 := Magnitude.mul_unitsPerOne_lt (by decide)
      omega
    exact exact.le_nearest Nat.one_pos (by rw [Nat.one_mul]; exact Nat.mul_le_mul_left margin large)
  have round := fractionRound_cases digits small proper ordered start grown
  dsimp only at round
  generalize Double.roundedUnits (fraction * radix) = shifted at *
  generalize Double.roundedUnits (margin * radix) = widened at *
  have isDigit : shifted / unitsPerOne < radix :=
    Nat.div_lt_of_lt_mul (Nat.mul_comm radix _ ▸ bounded)
  have longer : (shifted / unitsPerOne :: digits).length + room ≤ 1100 := by
    rw [List.length_cons]
    omega
  have every : ∀ digit ∈ shifted / unitsPerOne :: digits, digit < radix :=
    List.forall_mem_cons.mpr ⟨isDigit, each⟩
  obtain ⟨-, -, carried⟩ | ⟨near, ended⟩ | ⟨goesOn, continued⟩ := round
  · exact .inl ⟨_, carried, (length_roundUp_le ..).trans (Nat.le_of_add_right_le longer),
      roundUp_lt every, head?_roundUp_ne_zero _ _⟩
  · refine .inl ⟨_, ended, Nat.le_of_add_right_le longer, every, ?_⟩
    -- A rest that is less than the margin is less than what it was taken from.
    have nonzero : shifted / unitsPerOne ≠ 0 := by
      intro zero
      have split := Nat.div_add_mod shifted unitsPerOne
      rw [zero] at split
      omega
    simpa using nonzero
  · refine .inr ⟨_, continued, .intro _ _ _ shiftedExact.fraction widenedExact goesOn
      (Nat.mod_lt _ unitsPerOne_pos) ?_ longer every⟩
    calc unitsPerOne ≤ margin * 2 ^ (room + 1) := enough
      _ = margin * 2 * 2 ^ room := by rw [Nat.pow_succ', Nat.mul_assoc]
      _ ≤ widened * 2 ^ room := Nat.mul_le_mul_right _ doubled

variable {m : Magnitude}

/-- The digits of a fraction are the result of their loop, if that is entered. -/
theorem fractionPart_loop (large : 2 ≤ radix) (small : radix ≤ 36)
    (finite : m.rank < infinityRank) :
    let value := Double.signed false m
    (if value.margin.atMost (value - value.truncate) then
        ∃ rounds ≤ 1100, LoopEnds (fractionRound radix) rounds
          (value - value.truncate, value.margin, []) (fractionPart radix m)
      else fractionPart radix m = ([], false)) ∧
      IsFraction radix (fractionPart radix m).1 := by
  intro value
  rcases Nat.eq_zero_or_pos (m.units % unitsPerOne) with whole | fractional
  · have starts : ¬ value.margin.atMost (value - value.truncate) = true := by
      rw [fraction_eq finite, whole, Double.ofUnits_zero, Double.margin_atMost_zero]
      exact Bool.false_ne_true
    rw [if_neg starts, fractionPart_of_whole finite whole]
    exact ⟨rfl, isFraction_nil⟩
  · obtain ⟨isMargin, isFraction, starts, computed⟩ := fractionPart_of_fraction radix fractional
    have room : FractionRoom radix 1100 (value - value.truncate, value.margin, []) := by
      rw [isFraction, isMargin]
      exact .intro _ _ _ (IsExact.fraction ⟨m, finite, rfl⟩) (isExact_marginUnits fractional)
        (marginUnits_le_fraction fractional) (Nat.mod_lt _ unitsPerOne_pos)
        (unitsPerOne_le_marginUnits_mul Nat.one_lt_two m) (Nat.le_refl _) (List.forall_mem_nil _)
    obtain ⟨rounds, within, result, ends, good⟩ := LoopEnds.of_room not_fractionRoom_zero
      (fun _ _ => fractionRound_room large small) room
    rw [if_pos starts, computed, ← isFraction, ← isMargin, ends.fractionDigits_eq within]
    exact ⟨⟨rounds, within, ends⟩, good⟩

/-- A carry comes from a fraction, so the whole part that it is added to is below `2^53`. -/
theorem isExact_carried (radix : Nat) (finite : m.rank < infinityRank) :
    IsExact ((m.units / unitsPerOne + (fractionPart radix m).2.toNat) * unitsPerOne) := by
  have exact : IsExact m.units := ⟨m, finite, rfl⟩
  rcases Nat.eq_zero_or_pos (m.units % unitsPerOne) with whole | fractional
  · rw [fractionPart_of_whole finite whole, Bool.toNat_false, Nat.add_zero]
    exact exact.floor
  · have less : m.units / unitsPerOne < 2 ^ 53 := by
      refine Nat.lt_of_not_le fun large => fractional.ne' (Nat.mod_eq_zero_of_dvd ?_)
      exact exact.unitsPerOne_dvd ((Nat.le_div_iff_mul_le unitsPerOne_pos).mp large)
    have carry := Bool.toNat_le (fractionPart radix m).2
    exact .ones (by omega)

/-! ## The digits beyond the precision -/

/-- The quotient of a number of units by the radix, rounded. -/
def quotientUnits (radix units : Nat) : Nat :=
  (Magnitude.nearest (units * unitsPerOne) (radix * unitsPerOne)).units

theorem ofUnits_div_radix (large : 2 ≤ radix) (small : radix ≤ 36) {units : Nat}
    (exact : IsExact units) :
    Double.ofUnits units / .ofNat radix = .ofUnits (quotientUnits radix units) := by
  have divides : 0 < radix * unitsPerOne := Nat.mul_pos (by omega) unitsPerOne_pos
  rw [Double.ofNat_eq_ofUnits, Double.ofUnits_div exact (.ones (by omega)) divides, quotientUnits,
    Double.ofUnits_units, Double.nearest]

/-- A quotient is at most half as much, before and after it is rounded. -/
theorem quotientUnits_le (large : 2 ≤ radix) {n : Nat} (exact : IsExact (n * unitsPerOne)) :
    IsExact (quotientUnits radix (n * unitsPerOne)) ∧
      2 * quotientUnits radix (n * unitsPerOne) ≤ n * unitsPerOne := by
  have halved : n * unitsPerOne = n * unitsPerOne / 2 ^ 1 * 2 := by
    have even : 2 ∣ n * unitsPerOne := by
      rw [Magnitude.unitsPerOne_eq]
      exact (dvd_pow_self 2 (by decide)).mul_left n
    rw [Nat.pow_one, Nat.div_mul_cancel even]
  have upper : n * unitsPerOne * unitsPerOne ≤
      radix * unitsPerOne * (n * unitsPerOne / 2 ^ 1) := by
    generalize n * unitsPerOne / 2 ^ 1 = half at halved ⊢
    rw [halved]
    calc half * 2 * unitsPerOne = 2 * unitsPerOne * half := by ring
      _ ≤ radix * unitsPerOne * half :=
        Nat.mul_le_mul_right half (Nat.mul_le_mul_right unitsPerOne large)
  obtain ⟨isExact, less⟩ := (exact.div_two_pow 1).nearest_le
    (Nat.mul_pos (by omega) unitsPerOne_pos) upper
  refine ⟨isExact, ?_⟩
  change quotientUnits radix (n * unitsPerOne) ≤ _ at less
  omega

/-- The states of the loop that drops digits: a whole number, which is beyond `2^53` if a digit has
been dropped, and has at most as many bits as there is room for. -/
inductive DropRoom : Nat → Double × Nat → Prop
  | intro {room : Nat} (n count : Nat) (exact : IsExact (n * unitsPerOne)) (some : 0 < room)
      (less : n < 2 ^ room) (dropped : count = 0 ∨ 2 ^ 53 ≤ n) :
      DropRoom room (.ofUnits (n * unitsPerOne), count)

theorem not_dropRoom_zero (state : Double × Nat) : ¬ DropRoom 0 state := by
  rintro ⟨_, _, -, some, -, -⟩
  exact Nat.lt_irrefl 0 some

/-- What it ends with: a whole number whose quotient by the radix is below `2^53`. -/
inductive Dropped (radix : Nat) : Double × Nat → Prop
  | intro (n count : Nat) (exact : IsExact (n * unitsPerOne))
      (less : quotientUnits radix (n * unitsPerOne) < 2 ^ 53 * unitsPerOne)
      (dropped : count = 0 ∨ 2 ^ 53 ≤ n) :
      Dropped radix (.ofUnits (n * unitsPerOne), count)

theorem dropRound_room (large : 2 ≤ radix) (small : radix ≤ 36) {room : Nat}
    {state : Double × Nat} (starts : DropRoom (room + 1) state) :
    (∃ result, dropRound radix state = .inl result ∧ Dropped radix result) ∨
      ∃ following, dropRound radix state = .inr following ∧ DropRoom room following := by
  obtain ⟨n, count, exact, -, less, dropped⟩ := starts
  obtain ⟨quotientExact, half⟩ := quotientUnits_le large exact
  have limit := Double.ofUnits_atMost (.ones (Nat.le_refl (2 ^ 53))) quotientExact
  rw [dropRound, ofUnits_div_radix large small exact, exactIntegerLimit_eq]
  split
  · next goesOn =>
    have atLeast := limit.mp goesOn
    -- A quotient that large has no fraction.
    obtain ⟨quotient, isQuotient⟩ := quotientExact.unitsPerOne_dvd atLeast
    rw [Nat.mul_comm unitsPerOne] at isQuotient
    rw [isQuotient] at quotientExact atLeast half ⊢
    rw [← Nat.mul_assoc] at half
    have beyond : 2 ^ 53 ≤ quotient := Nat.le_of_mul_le_mul_right atLeast unitsPerOne_pos
    have fewer : 2 * quotient ≤ n := Nat.le_of_mul_le_mul_right half unitsPerOne_pos
    have bits : quotient < 2 ^ room := by
      rw [Nat.pow_succ] at less
      omega
    have some : 0 < room := by
      refine Nat.pos_of_ne_zero ?_
      rintro rfl
      rw [Nat.pow_zero] at bits
      omega
    exact .inr ⟨_, rfl, .intro _ _ quotientExact some bits (.inr beyond)⟩
  · next ended =>
    have below := Nat.lt_of_not_le fun atLeast => ended (limit.mpr atLeast)
    exact .inl ⟨_, rfl, .intro _ _ exact below dropped⟩

/-! ## The whole digits -/

/-- Digits of the radix without zeros in front. -/
structure IsWhole (radix : Nat) (digits : List Nat) : Prop where
  nonempty : digits ≠ []
  leading : digits.head? = some 0 → digits = [0]
  each : ∀ digit ∈ digits, digit < radix

theorem isWhole_digitsOf (large : 1 < radix) (n : Nat) : IsWhole radix (digitsOf radix n) :=
  ⟨digitsOf_ne_nil large n, eq_zero_of_head?_digitsOf large, digitsOf_lt large n⟩

theorem isWhole_append {digits later : List Nat} (leading : digits.head? ≠ some 0)
    (whole : IsWhole radix digits) (each : ∀ digit ∈ later, digit < radix) :
    IsWhole radix (digits ++ later) := by
  refine ⟨List.append_ne_nil_of_left_ne_nil whole.nonempty later, fun zero => ?_, ?_⟩
  · rw [List.head?_append_of_ne_nil _ whole.nonempty] at zero
    exact absurd zero leading
  · exact List.forall_mem_append.mpr ⟨whole.each, each⟩

/-- A round of the loop of the whole digits leaves a fraction out. -/
theorem wholeRound_floor (large : 2 ≤ radix) (small : radix ≤ 36) {units : Nat}
    (exact : IsExact units) (later : List Nat) :
    wholeRound radix (.ofUnits units, later) =
      wholeRound radix (.ofUnits (units / unitsPerOne * unitsPerOne), later) := by
  have base : IsExact (radix * unitsPerOne) := .ones (by omega)
  have divides : 0 < radix * unitsPerOne := Nat.mul_pos (by omega) unitsPerOne_pos
  have digit : units % (radix * unitsPerOne) / unitsPerOne =
      units / unitsPerOne * unitsPerOne % (radix * unitsPerOne) / unitsPerOne := by
    rw [Nat.mul_mod_mul_right, Nat.mul_div_cancel _ unitsPerOne_pos, Nat.mul_comm radix,
      Nat.mod_mul_right_div_self]
  have rest : units - units % (radix * unitsPerOne) = units / unitsPerOne * unitsPerOne -
      units / unitsPerOne * unitsPerOne % (radix * unitsPerOne) := by
    rw [← Nat.div_mul_self_eq_mod_sub_self, ← Nat.div_mul_self_eq_mod_sub_self,
      Nat.mul_div_mul_right _ _ unitsPerOne_pos, Nat.div_div_eq_div_mul, Nat.mul_comm radix]
  rw [wholeRound, wholeRound, Double.ofNat_eq_ofUnits, Double.ofUnits_rem exact base divides,
    Double.ofUnits_rem exact.floor base divides, Double.wholeNat_ofUnits (exact.mod base),
    Double.wholeNat_ofUnits (exact.floor.mod base),
    Double.ofUnits_sub exact (exact.mod base) (Nat.mod_le ..),
    Double.ofUnits_sub exact.floor (exact.floor.mod base) (Nat.mod_le ..), digit, rest]

/-- Beyond `2^53` what the last digit leaves is rounded, and by far not used up. -/
theorem roundedUnits_rest (large : 2 ≤ radix) (small : radix ≤ 36) {n : Nat}
    (exact : IsExact (n * unitsPerOne)) (beyond : 2 ^ 53 ≤ n) :
    let rest := Double.roundedUnits ((n - n % radix) * unitsPerOne)
    IsExact rest ∧ rest ≤ n * unitsPerOne ∧ 2 ^ 52 * unitsPerOne ≤ rest := by
  have isDigit := Nat.mod_lt n (show 0 < radix by omega)
  have upper : (n - n % radix) * unitsPerOne ≤ 1 * (n * unitsPerOne) := by
    rw [Nat.one_mul]
    exact Nat.mul_le_mul_right _ (Nat.sub_le ..)
  have lower : 1 * (2 ^ 52 * unitsPerOne) ≤ (n - n % radix) * unitsPerOne := by
    rw [Nat.one_mul]
    exact Nat.mul_le_mul_right _ (by omega)
  obtain ⟨restExact, less⟩ := exact.nearest_le Nat.one_pos upper
  have least : IsExact (2 ^ 52 * unitsPerOne) := .ones (by decide)
  exact ⟨restExact, less, least.le_nearest Nat.one_pos lower⟩

/-- Beyond `2^53` the first quotient is rounded, to one or more but not above `2^53`. -/
theorem wholeRound_beyond (large : 2 ≤ radix) (small : radix ≤ 36) {n : Nat}
    (exact : IsExact (n * unitsPerOne)) (beyond : 2 ^ 53 ≤ n)
    (less : quotientUnits radix (n * unitsPerOne) < 2 ^ 53 * unitsPerOne) (later : List Nat) :
    ∃ units, IsExact units ∧ unitsPerOne ≤ units ∧ units ≤ 2 ^ 53 * unitsPerOne ∧
      wholeRound radix (.ofUnits (n * unitsPerOne), later) =
        .inr (.ofUnits units, n % radix :: later) := by
  have base : IsExact (radix * unitsPerOne) := .ones (by omega)
  have divides : 0 < radix * unitsPerOne := Nat.mul_pos (by omega) unitsPerOne_pos
  have isDigit := Nat.mod_lt n (show 0 < radix by omega)
  have digitExact : IsExact (n % radix * unitsPerOne) := .ones (by omega)
  have digit : Double.ofUnits (n * unitsPerOne) % .ofNat radix =
      .ofUnits (n % radix * unitsPerOne) := by
    rw [Double.ofNat_eq_ofUnits, Double.ofUnits_rem exact base divides, Nat.mul_mod_mul_right]
  have rest : Double.ofUnits (n * unitsPerOne) - .ofUnits (n % radix * unitsPerOne) =
      .ofUnits (Double.roundedUnits ((n - n % radix) * unitsPerOne)) := by
    rw [Double.ofUnits_sub exact digitExact (Nat.mul_le_mul_right _ (Nat.mod_le ..)),
      Double.ofUnits_roundedUnits, Nat.sub_mul]
  obtain ⟨restExact, atMost, atLeast⟩ := roundedUnits_rest large small exact beyond
  generalize Double.roundedUnits ((n - n % radix) * unitsPerOne) = left at *
  have upper : quotientUnits radix left < 2 ^ 53 * unitsPerOne :=
    (Magnitude.nearest_units_mono divides (Nat.mul_le_mul_right unitsPerOne atMost)).trans_lt less
  have lower : unitsPerOne ≤ quotientUnits radix left := by
    apply IsExact.one.le_nearest divides
    apply Nat.mul_le_mul_right
    exact (Nat.mul_le_mul_right unitsPerOne (show radix ≤ 2 ^ 52 by omega)).trans atLeast
  have quotientExact : IsExact (quotientUnits radix left) :=
    .of_rank rfl (upper.trans (Magnitude.mul_unitsPerOne_lt (by decide)))
  have more : (0 : Double).less (.ofUnits (quotientUnits radix left)) = true := by
    rw [Double.ofNat_literal, Double.ofUnits_less (.ones (Nat.zero_le _)) quotientExact,
      Nat.zero_mul]
    exact unitsPerOne_pos.trans_le lower
  refine ⟨_, quotientExact, lower, upper.le, ?_⟩
  rw [wholeRound, digit, rest, ofUnits_div_radix large small restExact,
    Double.wholeNat_ofUnits digitExact, Nat.mul_div_cancel _ unitsPerOne_pos, if_pos more]

/-- The loop of the whole digits ends for any whole number whose quotient by the radix is below
`2^53`. -/
theorem wholeLoop_of_dropped (large : 2 ≤ radix) (small : radix ≤ 36) {dropped : Double × Nat}
    (start : Dropped radix dropped) :
    ∃ rounds ≤ 1100, ∃ digits,
      LoopEnds (wholeRound radix) rounds (dropped.1, List.replicate dropped.2 0) digits ∧
        IsWhole radix digits := by
  obtain ⟨n, count, exact, less, dropped⟩ := start
  have enough {m : Nat} (bounded : m ≤ 2 ^ 53) : m < radix ^ (53 + 1) :=
    calc m ≤ 2 ^ 53 := bounded
      _ < 2 ^ (53 + 1) := by decide
      _ ≤ radix ^ (53 + 1) := Nat.pow_le_pow_left large _
  have zeros : ∀ digit ∈ List.replicate count 0, digit < radix := by
    intro digit isZero
    rw [List.eq_of_mem_replicate isZero]
    omega
  rcases Nat.lt_or_ge n (2 ^ 53) with within | beyond
  · obtain rfl : count = 0 := dropped.resolve_right (Nat.not_le.mpr within)
    obtain ⟨rounds, few, ends⟩ :=
      wholeLoop_ends large small (.of_le within.le) (enough within.le) []
    rw [List.append_nil] at ends
    exact ⟨rounds, few.trans (by decide), _, ends, isWhole_digitsOf large n⟩
  · obtain ⟨units, unitsExact, lower, upper, first⟩ :=
      wholeRound_beyond large small exact beyond less (List.replicate count 0)
    have bounded : units / unitsPerOne ≤ 2 ^ 53 :=
      Nat.div_le_of_le_mul (Nat.mul_comm (2 ^ 53) _ ▸ upper)
    have some : 0 < units / unitsPerOne := Nat.div_pos lower unitsPerOne_pos
    obtain ⟨rounds, few, ends⟩ := wholeLoop_ends large small (.of_le bounded) (enough bounded)
      (n % radix :: List.replicate count 0)
    have floored := ends.congr (wholeRound_floor large small unitsExact _).symm
    refine ⟨rounds + 1, by omega, _, .next first floored, ?_⟩
    apply isWhole_append (head?_digitsOf_ne_zero large some) (isWhole_digitsOf large _)
    exact List.forall_mem_cons.mpr ⟨Nat.mod_lt n (by omega), zeros⟩

/-! ## The numeral -/

/-- The loops that write a number in a radix end: that of the fraction digits, which come last first
and with the carry that left them, that of the digits beyond the precision, which are counted, and
that of the whole digits. -/
structure LoopsEnd (radix : Nat) (n : Double) (fraction : List Nat × Bool) (dropped : Double × Nat)
    (whole : List Nat) : Prop where
  fractionLoop : if n.abs.margin.atMost (n.abs - n.abs.truncate) then
      ∃ rounds ≤ 1100, LoopEnds (fractionRound radix) rounds
        (n.abs - n.abs.truncate, n.abs.margin, []) fraction
    else fraction = ([], false)
  dropLoop : ∃ rounds ≤ 1100, LoopEnds (dropRound radix) rounds
    (if fraction.2 then n.abs.truncate + 1 else n.abs.truncate, 0) dropped
  wholeLoop : ∃ rounds ≤ 1100, LoopEnds (wholeRound radix) rounds
    (dropped.1, List.replicate dropped.2 0) whole

/-- The loops end with the digits of the numeral. -/
theorem exists_loopsEnd (large : 2 ≤ radix) (small : radix ≤ 36) (finite : m.rank < infinityRank)
    (negative : Bool) :
    ∃ fraction dropped whole, LoopsEnd radix (.signed negative m) fraction dropped whole ∧
      inRadix radix (.signed negative m) =
        ⟨(Double.signed negative m).less 0, whole, fraction.1.reverse, none⟩ ∧
      IsFraction radix fraction.1 ∧ IsWhole radix whole := by
  obtain ⟨fractionEnds, isFraction⟩ := fractionPart_loop large small finite
  have carried := carried_eq finite (fractionPart radix m).2
  have exact := isExact_carried radix finite
  have bits : m.units / unitsPerOne + (fractionPart radix m).2.toNat < 2 ^ 1025 := by
    have bound := Magnitude.whole_lt finite
    have carry := Bool.toNat_le (fractionPart radix m).2
    rw [Nat.pow_succ]
    omega
  generalize m.units / unitsPerOne + (fractionPart radix m).2.toNat = n at carried exact bits
  have room : DropRoom 1025 (.ofUnits (n * unitsPerOne), 0) :=
    .intro _ _ exact (by decide) bits (.inl rfl)
  obtain ⟨dropRounds, dropFew, dropped, dropEnds, isDropped⟩ :=
    LoopEnds.of_room not_dropRoom_zero (fun _ _ => dropRound_room large small) room
  obtain ⟨wholeRounds, wholeFew, whole, wholeEnds, isWhole⟩ :=
    wholeLoop_of_dropped large small isDropped
  have dropFew : dropRounds ≤ 1100 := dropFew.trans (by decide)
  rw [← carried] at dropEnds
  refine ⟨fractionPart radix m, dropped, whole, ⟨fractionEnds, ⟨dropRounds, dropFew, dropEnds⟩,
    ⟨wholeRounds, wholeFew, wholeEnds⟩⟩, ?_, isFraction, isWhole⟩
  have isDrop := dropEnds.dropInexact_eq dropFew
  dsimp only at isDrop
  rw [inRadix_signed]
  dsimp only
  rw [isDrop, wholeEnds.wholeDigits_eq wholeFew]

end Numeral

namespace Double

open Numeral (LoopsEnd)

/-- Outside ten every finite double is written in a radix by loops that all end, after at most 1100
digits of its fraction. The text is a minus sign just for a negative number, digits with no zero in
front but for the single digit of zero, and then nothing or a point and digits of which the last is
not zero. Every digit is below the radix and has its own character. -/
theorem textInRadix_wellFormed {n : Double} {value : ℚ} (isValue : n.exactValue? = some value)
    {radix : ℕ} (large : 2 ≤ radix) (small : radix ≤ 36) (notTen : radix ≠ 10) :
    ∃ (whole fraction : List ℕ) (carried : Bool) (dropped : Double × ℕ),
      LoopsEnd radix n (fraction.reverse, carried) dropped whole ∧
      n.textInRadix radix = String.ofList ((if value < 0 then ['-'] else []) ++
        whole.map (digitChar radix) ++
        if fraction = [] then [] else '.' :: fraction.map (digitChar radix)) ∧
      whole ≠ [] ∧ (whole.head? = some 0 → whole = [0]) ∧
      fraction.length ≤ 1100 ∧ fraction.getLast? ≠ some 0 ∧
      ∀ digit ∈ whole ++ fraction, digit < radix ∧
        "0123456789abcdefghijklmnopqrstuvwxyz".toList[digit]? = some (digitChar radix digit) := by
  obtain ⟨negative, m, finite, rfl, rfl⟩ := eq_signed_of_exactValue? isValue
  obtain ⟨fraction, dropped, whole, ends, numeral, isFraction, isWhole⟩ :=
    Numeral.exists_loopsEnd large small finite negative
  have plain : ¬ (decide (radix = 10) || !(signed negative m).isFinite) = true := by
    rw [isFinite, isInfinite_eq_false finite]
    simp [notTen]
  refine ⟨whole, fraction.1.reverse, fraction.2, dropped, ?_, ?_, isWhole.nonempty, isWhole.leading,
    ?_, ?_, fun digit isDigit => ?_⟩
  · rwa [List.reverse_reverse]
  · rw [textInRadix, if_neg plain, numeral, Numeral.render, Numeral.chars]
    simp only [less_zero_iff, List.isEmpty_iff, List.append_nil]
  · rw [List.length_reverse]
    exact isFraction.length
  · rw [List.getLast?_reverse]
    exact isFraction.last
  · have less : digit < radix := by
      rcases List.mem_append.mp isDigit with isWholeDigit | isFractionDigit
      · exact isWhole.each digit isWholeDigit
      · exact isFraction.each digit (List.mem_reverse.mp isFractionDigit)
    exact ⟨less, digitChar_eq_getElem? radix small digit less⟩

/-- The double nearest to minus seven tenths, in three. -/
theorem textInRadix_wellFormed_tenths :
    let n := ofBits 0xbfe6666666666666
    let value : ℚ := -3152519739159347 / 2 ^ 52
    n.exactValue? = some value ∧ 2 ≤ 3 ∧ 3 ≤ 36 ∧ 3 ≠ 10 ∧
      ∃ (whole fraction : List ℕ) (carried : Bool) (dropped : Double × ℕ),
        LoopsEnd 3 n (fraction.reverse, carried) dropped whole ∧
        n.textInRadix 3 = String.ofList ((if value < 0 then ['-'] else []) ++
          whole.map (digitChar 3) ++
          if fraction = [] then [] else '.' :: fraction.map (digitChar 3)) ∧
        whole ≠ [] ∧ (whole.head? = some 0 → whole = [0]) ∧
        fraction.length ≤ 1100 ∧ fraction.getLast? ≠ some 0 ∧
        ∀ digit ∈ whole ++ fraction, digit < 3 ∧
          "0123456789abcdefghijklmnopqrstuvwxyz".toList[digit]? = some (digitChar 3 digit) := by
  intro n value
  have isValue : n.exactValue? = some value := by decide +kernel
  exact ⟨isValue, by decide, by decide, by decide,
    textInRadix_wellFormed isValue (by decide) (by decide) (by decide)⟩

end Double

end ScriptCore
