import ScriptCore.Error

/-! # Actions

An action changes a state and ends with a result or a script error. The state outlives an error:
what an action changed before it failed stays changed.
-/

namespace ScriptCore

abbrev Action (σ : Type) := ExceptT ScriptError (StateM σ)

namespace Action

variable {σ α : Type}

/-- Ends with an error at a place in the script. -/
def fail (cause : Cause) (range : Option SourceRange) : Action σ α := throw ⟨cause, range⟩

end Action

end ScriptCore
