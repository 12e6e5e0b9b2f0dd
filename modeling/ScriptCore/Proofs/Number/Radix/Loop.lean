import Mathlib.Tactic.SplitIfs
import ScriptCore.Number.Radix

/-! # The loops that write a number in a radix

A loop is given by what one round makes of its state: the result, or the next state. It ends after
as many rounds as it takes, if it ends at all. The functions that compute its result stop after a
given number of rounds; where the loop ends within that number they give the result of the loop.
-/

namespace ScriptCore

/-- A loop ends with a result after a number of rounds. -/
inductive LoopEnds {σ ρ : Type} (round : σ → ρ ⊕ σ) : Nat → σ → ρ → Prop
  | last {state : σ} {result : ρ} (ended : round state = .inl result) :
      LoopEnds round 1 state result
  | next {rounds : Nat} {state following : σ} {result : ρ} (goesOn : round state = .inr following)
      (later : LoopEnds round rounds following result) : LoopEnds round (rounds + 1) state result

namespace LoopEnds

variable {σ ρ : Type} {round : σ → ρ ⊕ σ}

/-- A loop ends if there is only room for so many rounds: from a state that has room a round gives a
good result or a state with less room. -/
theorem of_room {Room : Nat → σ → Prop} {Good : ρ → Prop} (nonzero : ∀ state, ¬ Room 0 state)
    (step : ∀ room state, Room (room + 1) state →
      (∃ result, round state = .inl result ∧ Good result) ∨
        ∃ following, round state = .inr following ∧ Room room following)
    {room : Nat} {state : σ} (start : Room room state) :
    ∃ rounds ≤ room, ∃ result, LoopEnds round rounds state result ∧ Good result := by
  induction room generalizing state with
  | zero => exact absurd start (nonzero state)
  | succ room ih =>
    obtain ⟨result, ended, good⟩ | ⟨following, goesOn, less⟩ := step room state start
    · exact ⟨1, Nat.le_add_left .., result, .last ended, good⟩
    · obtain ⟨rounds, within, result, later, good⟩ := ih less
      exact ⟨rounds + 1, Nat.add_le_add_right within 1, result, .next goesOn later, good⟩

/-- What a loop ends with depends on its first round only. -/
theorem congr {rounds : Nat} {first second : σ} {result : ρ} (same : round first = round second)
    (ends : LoopEnds round rounds first result) : LoopEnds round rounds second result := by
  cases ends with
  | last ended => exact .last (same ▸ ended)
  | next goesOn later => exact .next (same ▸ goesOn) later

/-- A function that makes a bounded number of rounds gives the result of the loop, if that ends
within the bound. -/
theorem run_eq (run : Nat → σ → ρ)
    (run_succ : ∀ fuel state, run (fuel + 1) state = (round state).elim id (run fuel))
    {rounds fuel : Nat} {state : σ} {result : ρ} (ends : LoopEnds round rounds state result)
    (enough : rounds ≤ fuel) : run fuel state = result := by
  induction ends generalizing fuel with
  | last ended =>
    obtain ⟨fuel, rfl⟩ := Nat.exists_eq_add_of_le' enough
    rw [run_succ, ended]
    rfl
  | next goesOn _ ih =>
    obtain ⟨fuel, rfl⟩ := Nat.exists_eq_add_of_le' (Nat.le_of_add_left_le enough)
    rw [run_succ, goesOn]
    exact ih (Nat.le_of_add_le_add_right enough)

end LoopEnds

namespace Numeral

/-- The result of a carry into the digits of a fraction, or out of them. -/
def roundUp (radix : Nat) (digits : List Nat) : List Nat × Bool :=
  match carry? radix digits with
  | some digits => (digits, false)
  | none => ([], true)

theorem roundUp_cons (radix digit : Nat) (earlier : List Nat) :
    roundUp radix (digit :: earlier) =
      if digit + 1 < radix then ((digit + 1) :: earlier, false) else roundUp radix earlier := by
  rw [roundUp, carry?]
  split_ifs <;> rfl

/-- A round of the loop of the fraction digits. -/
def fractionRound (radix : Nat) :
    Double × Double × List Nat → (List Nat × Bool) ⊕ (Double × Double × List Nat)
  | (fraction, margin, digits) =>
    let base := Double.ofNat radix
    let shifted := fraction * base
    let margin := margin * base
    let digit := shifted.wholeNat
    let digits := digit :: digits
    let rest := shifted - Double.ofNat digit
    let roundsUp := Double.half.less rest || (rest.equals Double.half && digit % 2 == 1)
    if roundsUp && (1 : Double).less (rest + margin) then .inl (roundUp radix digits)
    else if rest.less margin then .inl (digits, false)
    else .inr (rest, margin, digits)

/-- A round of the loop that drops the digits beyond the precision of a double. -/
def dropRound (radix : Nat) : Double × Nat → (Double × Nat) ⊕ (Double × Nat)
  | (whole, count) =>
    let quotient := whole / Double.ofNat radix
    if Double.exactIntegerLimit.atMost quotient then .inr (quotient, count + 1)
    else .inl (whole, count)

/-- A round of the loop of the whole digits. -/
def wholeRound (radix : Nat) : Double × List Nat → List Nat ⊕ (Double × List Nat)
  | (whole, later) =>
    let digit := whole % Double.ofNat radix
    let rest := (whole - digit) / Double.ofNat radix
    let digits := digit.wholeNat :: later
    if (0 : Double).less rest then .inr (rest, digits) else .inl digits

theorem fractionDigits_succ (radix fuel : Nat) (state : Double × Double × List Nat) :
    fractionDigits radix (fuel + 1) state.1 state.2.1 state.2.2 =
      (fractionRound radix state).elim id fun next =>
        fractionDigits radix fuel next.1 next.2.1 next.2.2 := by
  rw [fractionDigits, fractionRound]
  split_ifs <;> rfl

theorem dropInexact_succ (radix fuel : Nat) (state : Double × Nat) :
    dropInexact (.ofNat radix) (fuel + 1) state.1 state.2 =
      (dropRound radix state).elim id fun next =>
        dropInexact (.ofNat radix) fuel next.1 next.2 := by
  rw [dropInexact, dropRound]
  split_ifs <;> rfl

theorem wholeDigits_succ (radix fuel : Nat) (state : Double × List Nat) :
    wholeDigits (.ofNat radix) (fuel + 1) state.1 state.2 =
      (wholeRound radix state).elim id fun next =>
        wholeDigits (.ofNat radix) fuel next.1 next.2 := by
  rw [wholeDigits, wholeRound]
  split_ifs <;> rfl

end Numeral

namespace LoopEnds

open Numeral

variable {radix rounds fuel : Nat}

theorem fractionDigits_eq {state : Double × Double × List Nat} {result : List Nat × Bool}
    (ends : LoopEnds (fractionRound radix) rounds state result) (enough : rounds ≤ fuel) :
    fractionDigits radix fuel state.1 state.2.1 state.2.2 = result :=
  ends.run_eq (fun fuel state => fractionDigits radix fuel state.1 state.2.1 state.2.2)
    (fractionDigits_succ radix) enough

theorem dropInexact_eq {state result : Double × Nat}
    (ends : LoopEnds (dropRound radix) rounds state result) (enough : rounds ≤ fuel) :
    dropInexact (.ofNat radix) fuel state.1 state.2 = result :=
  ends.run_eq (fun fuel state => dropInexact (.ofNat radix) fuel state.1 state.2)
    (dropInexact_succ radix) enough

theorem wholeDigits_eq {state : Double × List Nat} {digits : List Nat}
    (ends : LoopEnds (wholeRound radix) rounds state digits) (enough : rounds ≤ fuel) :
    wholeDigits (.ofNat radix) fuel state.1 state.2 = digits :=
  ends.run_eq (fun fuel state => wholeDigits (.ofNat radix) fuel state.1 state.2)
    (wholeDigits_succ radix) enough

end LoopEnds

end ScriptCore
