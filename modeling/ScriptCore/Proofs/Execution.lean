import ScriptCore.Machine
import ScriptCore.Proofs.Action

/-! # Running executions

An execution is a function of its machine, and has an outcome or none. These equations run one on a
machine.
-/

namespace ScriptCore

namespace Execution

variable {α β : Type}

theorem pure_apply (a : α) (machine : Machine) :
    (pure a : Execution α) machine = some (.ok a, machine) := rfl

theorem fail_apply (cause : Cause) (range : Option SourceRange) (machine : Machine) :
    (fail cause range : Execution α) machine = some (.error ⟨cause, range⟩, machine) := rfl

theorem ofExcept_apply (result : Except ScriptError α) (machine : Machine) :
    (ofExcept result : Execution α) machine = some (result, machine) := by
  cases result <;> rfl

theorem heap_apply (machine : Machine) :
    heap machine = some (.ok machine.realm.heap, machine) := rfl

theorem onHeap_apply (action : Action Heap α) (machine : Machine) :
    onHeap action machine =
      some ((action machine.realm.heap).1,
        ⟨⟨(action machine.realm.heap).2, machine.realm.context⟩, machine.registers⟩) := rfl

theorem bind_apply (execution : Execution α) (next : α → Execution β) (machine : Machine) :
    (execution >>= next) machine =
      match execution machine with
      | none => none
      | some (.ok a, after) => next a after
      | some (.error error, after) => some (.error error, after) := by
  change (execution machine).bind _ = _
  rcases execution machine with _ | ⟨_ | _, after⟩ <;> rfl

/-- A sequence answers if its parts do, one after the other. -/
theorem bind_answers_iff {execution : Execution α} {next : α → Execution β}
    {machine after : Machine} {b : β} :
    (execution >>= next) machine = some (.ok b, after) ↔
      ∃ a between, execution machine = some (.ok a, between) ∧
        next a between = some (.ok b, after) := by
  rw [bind_apply]
  rcases execution machine with _ | ⟨refusal | a, between⟩
  · simp
  · simp
  · constructor
    · exact fun answers => ⟨a, between, rfl, answers⟩
    · rintro ⟨a, between, ⟨⟩, answers⟩
      exact answers

/-- What an execution without an answer comes to: an error and the machine that it leaves, or no
outcome at all. -/
def stopped (stop : Option (ScriptError × Machine)) :
    Option (Except ScriptError α × Machine) :=
  stop.map fun (error, after) => (.error error, after)

theorem answers_or_stops (outcome : Option (Except ScriptError α × Machine)) :
    (∃ a after, outcome = some (.ok a, after)) ∨ ∃ stop, outcome = stopped stop := by
  rcases outcome with _ | ⟨error | a, after⟩
  · exact .inr ⟨none, rfl⟩
  · exact .inr ⟨some (error, after), rfl⟩
  · exact .inl ⟨a, after, rfl⟩

/-- A sequence stops in its first part, or in its second after the first has answered. -/
theorem bind_stopped_iff {execution : Execution α} {next : α → Execution β} {machine : Machine}
    (stop : Option (ScriptError × Machine)) :
    (execution >>= next) machine = stopped stop ↔
      execution machine = stopped stop ∨
        ∃ a between, execution machine = some (.ok a, between) ∧
          next a between = stopped stop := by
  rw [bind_apply]
  rcases execution machine with _ | ⟨refusal | a, between⟩
  · cases stop <;> simp [stopped]
  · cases stop <;> simp [stopped]
  · constructor
    · exact fun stops => .inr ⟨a, between, rfl, stops⟩
    · rintro (stops | ⟨a, between, ⟨⟩, stops⟩)
      · cases stop <;> simp [stopped] at stops
      · exact stops

/-- A sequence fails in its first part, or in its second after the first has answered. -/
theorem bind_fails_iff {execution : Execution α} {next : α → Execution β}
    {machine after : Machine} {error : ScriptError} :
    (execution >>= next) machine = some (.error error, after) ↔
      execution machine = some (.error error, after) ∨
        ∃ a between, execution machine = some (.ok a, between) ∧
          next a between = some (.error error, after) :=
  bind_stopped_iff (some (error, after))

/-- A sequence whose second part always answers stops just as its first part. -/
theorem bind_stopped_iff_of_answers {execution : Execution α} {next : α → Execution β}
    {machine : Machine} (stop : Option (ScriptError × Machine))
    (answers : ∀ a between, ∃ b later, next a between = some (.ok b, later)) :
    (execution >>= next) machine = stopped stop ↔ execution machine = stopped stop := by
  rw [bind_stopped_iff, or_iff_left]
  rintro ⟨a, between, -, stops⟩
  obtain ⟨b, later, succeeds⟩ := answers a between
  cases stop <;> cases succeeds.symm.trans stops

/-- A sequence whose second part always answers fails just as its first part. -/
theorem bind_fails_iff_of_answers {execution : Execution α} {next : α → Execution β}
    {machine after : Machine} {error : ScriptError}
    (answers : ∀ a between, ∃ b later, next a between = some (.ok b, later)) :
    (execution >>= next) machine = some (.error error, after) ↔
      execution machine = some (.error error, after) :=
  bind_stopped_iff_of_answers (some (error, after)) answers

theorem map_apply (change : α → β) (execution : Execution α) (machine : Machine) :
    (change <$> execution) machine =
      (execution machine).map fun outcome => (outcome.1.map change, outcome.2) := by
  rw [map_eq_pure_bind, bind_apply]
  rcases execution machine with _ | ⟨_ | _, after⟩ <;> rfl

end Execution

end ScriptCore
