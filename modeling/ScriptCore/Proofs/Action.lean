import ScriptCore.Action

/-! # Running actions

An action is a function of its state. These equations run one on a state, so that what an operation
does can be stated without the monad it is written in.
-/

namespace ScriptCore

namespace Action
variable {σ α β : Type}

theorem pure_apply (a : α) (state : σ) : (pure a : Action σ α) state = (.ok a, state) := rfl

theorem fail_apply (cause : Cause) (range : Option SourceRange) (state : σ) :
    (fail cause range : Action σ α) state = (.error ⟨cause, range⟩, state) := rfl

theorem get_apply (state : σ) : (get : Action σ σ) state = (.ok state, state) := rfl

theorem modify_apply (change : σ → σ) (state : σ) :
    (modify change : Action σ PUnit) state = (.ok ⟨⟩, change state) := rfl

theorem ofExcept_apply (result : Except ScriptError α) (state : σ) :
    (ofExcept result : Action σ α) state = (result, state) := by
  cases result <;> rfl

theorem bind_apply (action : Action σ α) (next : α → Action σ β) (state : σ) :
    (action >>= next) state =
      match action state with
      | (.ok a, after) => next a after
      | (.error error, after) => (.error error, after) := by
  change (match action state with | (result, after) => ExceptT.bindCont next result after) = _
  rcases action state with ⟨_ | _, after⟩ <;> rfl

theorem bind_of_ok {action : Action σ α} {state after : σ} {a : α}
    (succeeds : action state = (.ok a, after)) (next : α → Action σ β) :
    (action >>= next) state = next a after := by
  rw [bind_apply, succeeds]

/-- Answering something else does not matter to the state. -/
theorem bind_pure_apply (action : Action σ α) (b : β) (state : σ) :
    (action >>= fun _ => pure b : Action σ β) state =
      ((action state).1.map fun _ => b, (action state).2) := by
  rw [bind_apply]
  rcases action state with ⟨_ | _, after⟩ <;> rfl

theorem map_apply (change : α → β) (action : Action σ α) (state : σ) :
    (change <$> action) state = ((action state).1.map change, (action state).2) := by
  rw [map_eq_pure_bind, bind_apply]
  rcases action state with ⟨_ | _, after⟩ <;> rfl

theorem map_of_ok {action : Action σ α} {state after : σ} {a : α}
    (succeeds : action state = (.ok a, after)) (change : α → β) :
    (change <$> action) state = (.ok (change a), after) := by
  rw [map_apply, succeeds]
  rfl

end Action
end ScriptCore
