import ScriptCore.Scope.Context

/-! # Machines and executions

A machine is a realm together with registers, in which a host program keeps values between its
steps. An execution changes a machine and ends with a result or a script error; it has no outcome
at all when its calls go deeper than it was allowed to.
-/

namespace ScriptCore

structure Machine where
  realm : Realm
  registers : Entries Value

abbrev Execution := ExceptT ScriptError (StateT Machine Option)

def Machine.initial : Machine := ⟨.initial, .empty⟩

namespace Execution

variable {α : Type}

def fail (cause : Cause) (range : Option SourceRange) : Execution α := throw ⟨cause, range⟩

/-- Has no outcome. -/
def exhausted : Execution α := fun _ => none

def onRealm (action : Action Realm α) : Execution α := fun ⟨realm, registers⟩ =>
  let (result, realm) := action realm
  some (result, ⟨realm, registers⟩)

def onHeap (action : Action Heap α) : Execution α := onRealm (Realm.onHeap action)

def heap : Execution Heap := return (← get).realm.heap

def context : Execution Context := return (← get).realm.context

/-- Runs a body in a new innermost frame. Whether it succeeds or fails, the frames that it left
beyond the earlier depth are dropped. -/
def inScope (body : Execution α) : Execution α := fun ⟨⟨heap, context⟩, registers⟩ => do
  let depth := context.depth
  let (result, ⟨⟨heap, context⟩, registers⟩) ← body ⟨⟨heap, context.enter⟩, registers⟩
  return (result, ⟨⟨heap, context.truncate depth⟩, registers⟩)

end Execution

/-- Calls a function with arguments, to construct or not. -/
abbrev Invocation := FunctionRef → List Value → Bool → Execution Value

end ScriptCore
